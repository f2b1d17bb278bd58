import MiniBox.Lib.Slice
import MiniBox.Threads.Stream

/-!
# The file table

A flat list of named files, and the descriptors open on them.  A file's bytes are in memory
or on the host's disk; the two streams have none.  A descriptor has a position of its own,
and a new one is the lowest number not in use.  A file that can be written is open at most
once.

`len` is what the guest is told and held to.  It is the number of bytes in memory for a
regular file.  A file written to the host's disk may be longer than what reached the disk,
since an empty write past the end moves the end and writes nothing.

With `linuxAnswers` a descriptor that is not open, a stream that is asked to seek and a
seek past the end are answered as Linux answers them.

Allocations and host files are taken to work: `ENOSPC`, and `EIO` from a read or a write,
are not modelled.
-/

namespace MiniBox

open Lib

inductive FileKind where
  | empty
  | sysout
  | regular
  /-- on the host's disk, read only -/
  | host
  /-- on the host's disk, written as it goes -/
  | hostOut
  deriving DecidableEq

/-- `mounted_file`. -/
structure MountedFile where
  name : Bytes
  kind : FileKind
  /-- in memory, or on the host's disk -/
  data : Bytes := []
  len : UInt64 := 0
  writable : Bool := false
  deriving DecidableEq

/-- `open_handle`. -/
structure OpenHandle where
  fd : Int32
  /-- an index into the files -/
  file : Nat
  pos : UInt64
  deriving DecidableEq

def MountedFile.hostFile (f : MountedFile) : Bool := f.kind == .host || f.kind == .hostOut

def MountedFile.hasBytes (f : MountedFile) : Bool := f.kind == .regular || f.hostFile

/-! ## Bytes at an offset -/

/-- `data` with `buf` over it from `at_` on, and zeros in the gap before. -/
def writeAt (data : Bytes) (at_ : Nat) (buf : Bytes) : Bytes :=
  let padded := data ++ List.replicate (at_ - data.length) 0
  padded.take at_ ++ buf ++ padded.drop (at_ + buf.length)

/-- `data` cut to `size` bytes, or made longer with zeros. -/
def resize (data : Bytes) (size : Nat) : Bytes :=
  data.take size ++ List.replicate (size - data.length) 0

/-- The file after `buf` was written at `at_`.  An empty write past the end moves the end;
in memory the gap is zeroed, on the disk nothing is written. -/
def MountedFile.written (f : MountedFile) (at_ : Nat) (buf : Bytes) : MountedFile :=
  { f with
    data := if f.kind = .hostOut ∧ buf = [] then f.data else writeAt f.data at_ buf
    len := UInt64.ofNat (max f.len.toNat (at_ + buf.length)) }

/-! ## The guest's output -/

/-- `sizeof fs->sysout_tail`. -/
def ringSize : Nat := 16 * 1024

/-- The newest bytes of the guest's output. -/
structure OutputRing where
  tail : Bytes := List.replicate ringSize 0
  /-- every byte ever written -/
  total : UInt64 := 0
  /-- where the next byte goes -/
  at_ : Nat := 0
  wrapped : Bool := false
  deriving DecidableEq

/-- `mb_fs`. -/
structure Files where
  files : List MountedFile
  handles : List OpenHandle
  output : OutputRing := {}
  linuxAnswers : Bool := false
  deriving DecidableEq

/-- `sysout_remember`. -/
def OutputRing.remember (r : OutputRing) (buf : Bytes) : OutputRing :=
  let n := buf.length
  let total := r.total + UInt64.ofNat n
  if ringSize ≤ n then
    { tail := patch r.tail 0 (buf.drop (n - ringSize)), total, at_ := 0, wrapped := true }
  else
    let first := min (ringSize - r.at_) n
    let r := { r with tail := patch r.tail r.at_ (buf.take first), total }
    if first < n then
      { r with tail := patch r.tail 0 (buf.drop first), at_ := n - first, wrapped := true }
    else if r.at_ + first = ringSize then { r with at_ := 0, wrapped := true }
    else { r with at_ := r.at_ + first }

/-- `mb_fs_sysout_tail`: the newest bytes, at most `cap` of them, oldest first. -/
def OutputRing.newest (r : OutputRing) (cap : Nat) : Bytes :=
  let have_ := if r.wrapped then ringSize else r.at_
  let take := min have_ cap
  let oldest := if r.wrapped then r.at_ else 0
  (List.range take).map fun i => r.tail.getD ((oldest + (have_ - take) + i) % ringSize) 0

/-- `mb_fs_sysout_since`. -/
def OutputRing.since (r : OutputRing) (mark : UInt64) (cap : Nat) : Bytes :=
  if r.total ≤ mark then [] else r.newest (min (r.total - mark).toNat cap)

namespace Files

variable (fs : Files)

/-! ## Looking up -/

/-- `not_open`. -/
def notOpen (before : Errno) : Errno := if fs.linuxAnswers then .ebadf else before

def handleIndex (fd : Int32) : Nat := fs.handles.findIdx (·.fd == fd)

def handleByFd (fd : Int32) : Option OpenHandle := fs.handles.find? (·.fd == fd)

/-- The handle `fd`, changed. -/
def onHandle (fd : Int32) (f : OpenHandle → OpenHandle) : Files :=
  { fs with handles := fs.handles.modify (fs.handleIndex fd) f }

def fileIndex (name : Bytes) : Nat := fs.files.findIdx (·.name == name)

def byName (name : Bytes) : Option MountedFile := fs.files.find? (·.name == name)

def onFile (i : Nat) (f : MountedFile → MountedFile) : Files :=
  { fs with files := fs.files.modify i f }

def fileIsOpen (i : Nat) : Bool := fs.handles.any (·.file == i)

/-- A descriptor with the file it is open on. -/
def opened (fd : Int32) : Option (OpenHandle × MountedFile) :=
  match fs.handleByFd fd with
  | none => none
  | some h => (fs.files[h.file]?).map fun f => (h, f)

/-! ## Descriptors -/

/-- The lowest number from `fd` on that no handle has; `fuel` handles are left to collide
with. -/
def lowestFree : (fuel : Nat) → (fd : Int32) → Int32
  | 0, fd => fd
  | fuel + 1, fd => if (fs.handleByFd fd).isSome then lowestFree fuel (fd + 1) else fd

/-- `handle_add`. -/
def handleAdd (file : Nat) (pos : UInt64) : Int32 × Files :=
  let fd := fs.lowestFree fs.handles.length 0
  (fd, { fs with handles := fs.handles ++ [⟨fd, file, pos⟩] })

/-- "/dev/stdin". -/
def stdinName : Bytes := [0x2f, 0x64, 0x65, 0x76, 0x2f, 0x73, 0x74, 0x64, 0x69, 0x6e]

/-- "/dev/stdout". -/
def stdoutName : Bytes := [0x2f, 0x64, 0x65, 0x76, 0x2f, 0x73, 0x74, 0x64, 0x6f, 0x75, 0x74]

/-- "/dev/stderr". -/
def stderrName : Bytes := [0x2f, 0x64, 0x65, 0x76, 0x2f, 0x73, 0x74, 0x64, 0x65, 0x72, 0x72]

/-- `mb_fs_new`: the three streams, open on 0, 1 and 2. -/
def new : Files where
  files := [⟨stdinName, .empty, [], 0, false⟩, ⟨stdoutName, .sysout, [], 0, false⟩,
    ⟨stderrName, .sysout, [], 0, false⟩]
  handles := [⟨0, 0, 0⟩, ⟨1, 1, 0⟩, ⟨2, 2, 0⟩]

/-! ## Mounting -/

def mount (name data : Bytes) (writable : Bool) : Except Errno Unit × Files :=
  if (fs.byName name).isSome then (.error .eexist, fs)
  else
    (.ok (), { fs with
      files := fs.files ++ [⟨name, .regular, data, UInt64.ofNat data.length, writable⟩] })

/-- `mb_fs_mount_path`, with what the host has at the path. -/
def mountPath (name : Bytes) (content : Option Bytes) : Except Errno Unit × Files :=
  if (fs.byName name).isSome then (.error .eexist, fs)
  else
    match content with
    | none => (.error .enoent, fs)
    | some data =>
      (.ok (), { fs with
        files := fs.files ++ [⟨name, .host, data, UInt64.ofNat data.length, false⟩] })

/-- `mb_fs_mount_path_writable`, and whether the host could make the file. -/
def mountPathWritable (name : Bytes) (made : Bool) : Except Errno Unit × Files :=
  if (fs.byName name).isSome then (.error .eexist, fs)
  else if !made then (.error .enoent, fs)
  else (.ok (), { fs with files := fs.files ++ [⟨name, .hostOut, [], 0, true⟩] })

/-- `mb_fs_unmount`: the bytes of a regular file.  Handles name files by index, and those
after this one move down. -/
def unmount (name : Bytes) : Except Errno Bytes × Files :=
  match fs.byName name with
  | none => (.error .enoent, fs)
  | some f =>
    let i := fs.fileIndex name
    if !f.hasBytes then (.error .einval, fs)
    else if fs.fileIsOpen i then (.error .ebusy, fs)
    else
      (.ok (if f.hostFile then [] else f.data), { fs with
        files := fs.files.eraseIdx i
        handles := fs.handles.map fun h => if i < h.file then
        { h with file := h.file - 1 } else h })

/-! ## Opening and closing -/

/-- Whether the access mode of an open asks for reading and writing; `O_ACCMODE` is
0010000003. -/
def accessMode (flags : UInt32) : Option (Bool × Bool) :=
  match flags &&& 0x200003 with
  | 0 => some (true, false)
  | 1 => some (false, true)
  | 2 => some (true, true)
  | _ => none

def open_ (name : Bytes) (flags : UInt32) : Except Errno Int32 × Files :=
  match fs.byName name with
  | none => (.error .enoent, fs)
  | some f =>
    let i := fs.fileIndex name
    if f.hasBytes && f.writable && fs.fileIsOpen i then (.error .eacces, fs)
    else
      let canRead := f.kind != .sysout
      let canWrite := f.kind == .sysout || f.hasBytes && f.writable
      match accessMode flags with
      | none => (.error .einval, fs)
      | some (reads, writes) =>
        if reads && !canRead || writes && !canWrite then (.error .eacces, fs)
        else
          let (fd, fs) := fs.handleAdd i 0
          (.ok fd, fs)

/-- `mb_fs_dup`: a second descriptor, with a position of its own. -/
def dup (fd : Int32) : Except Errno Int32 × Files :=
  match fs.opened fd with
  | none => (.error .ebadf, fs)
  | some (h, f) =>
    if f.hasBytes && f.writable then (.error .eacces, fs)
    else
      let (fd, fs) := fs.handleAdd h.file h.pos
      (.ok fd, fs)

/-- `mb_fs_close`: the last handle takes the place of the one closed. -/
def close (fd : Int32) : Except Errno Unit × Files :=
  match fs.handleByFd fd, fs.handles.getLast? with
  | some _, some last =>
    (.ok (), { fs with handles := (fs.handles.set (fs.handleIndex fd) last).dropLast })
  | _, _ => (.error .ebadf, fs)

/-! ## Reading and writing -/

/-- What a handle has left to read. -/
def left (h : OpenHandle) (f : MountedFile) : UInt64 := if h.pos < f.len then f.len - h.pos else 0

/-- `mb_fs_read_avail`: how many bytes a read of `n` will put into the guest's buffer. -/
def readAvail (fd : Int32) (n : UInt64) : UInt64 :=
  match fs.opened fd with
  | none => 0
  | some (h, f) => if !f.hasBytes then 0 else min n (left h f)

def read (fd : Int32) (n : UInt64) : Except Errno Bytes × Files :=
  match fs.opened fd with
  | none => (.error (fs.notOpen .enoent), fs)
  | some (h, f) =>
    if f.kind = .empty then (.ok [], fs)
    else if f.kind = .sysout then (.error .ebadf, fs)
    else
      let got := (f.data.drop h.pos.toNat).take (min n (left h f)).toNat
      (.ok got, fs.onHandle fd fun h => { h with pos := h.pos + UInt64.ofNat got.length })

/-- The handle's bytes written at `at_`; past the end the gap reads as zeros. -/
def putBytes (file : Nat) (at_ : UInt64) (buf : Bytes) : Files :=
  fs.onFile file fun f => f.written at_.toNat buf

def write (fd : Int32) (buf : Bytes) : Except Errno UInt64 × Files :=
  match fs.opened fd with
  | none => (.error (fs.notOpen .enoent), fs)
  | some (h, f) =>
    let n := UInt64.ofNat buf.length
    if f.kind = .sysout then (.ok n, { fs with output := fs.output.remember buf })
    else if f.kind = .empty ∨ !f.writable then (.error .ebadf, fs)
    else if h.pos + n < h.pos then (.error .efbig, fs)
    else
      (.ok n, (fs.putBytes h.file h.pos buf).onHandle fd fun h => { h with pos := h.pos + n })

/-- `mb_fs_pwrite`: at an offset, the position untouched. -/
def pwrite (fd : Int32) (buf : Bytes) (offset : Int64) : Except Errno UInt64 × Files :=
  match fs.opened fd with
  | none => (.error .ebadf, fs)
  | some (h, f) =>
    let n := UInt64.ofNat buf.length
    if f.kind = .sysout then (.error .espipe, fs)
    else if (f.kind ≠ .regular ∧ f.kind ≠ .hostOut) ∨ !f.writable then (.error .ebadf, fs)
    else if offset < 0 then (.error .einval, fs)
    else if n = 0 then (.ok 0, fs)
    else
      let at_ := offset.toUInt64
      if at_ + n < at_ then (.error .efbig, fs) else (.ok n, fs.putBytes h.file at_ buf)

inductive Whence where
  | set
  | cur
  | end_
  deriving DecidableEq

def Whence.ofWord (w : Int32) : Option Whence :=
  if w = 0 then some .set else if w = 1 then some .cur else if w = 2 then some .end_ else none

def seek (fd : Int32) (offset : Int64) (whence : Option Whence) : Except Errno Int64 × Files :=
  match fs.opened fd with
  | none => (.error (fs.notOpen .einval), fs)
  | some (h, f) =>
    if !f.hasBytes then (.error (if fs.linuxAnswers then .espipe else .einval), fs)
    else
      match whence with
      | none => (.error .einval, fs)
      | some whence =>
        let newpos := match whence with
          | .set => offset
          | .cur => h.pos.toInt64 + offset
          | .end_ => f.len.toInt64 + offset
        if newpos < 0 ∨ (!fs.linuxAnswers ∧ f.len.toInt64 < newpos) then (.error .einval, fs)
        else (.ok newpos, fs.onHandle fd fun h => { h with pos := newpos.toUInt64 })

/-! ## Asking about files -/

/-- The words of a `kstat`. -/
def fillStat (canRead canWrite canSeek : Bool) (length : UInt64) : Bytes :=
  let mode : UInt32 :=
    (if canRead then 0o444 else 0) ||| (if canWrite then 0o222 else 0) |||
      (if canSeek then 0o100000 else 0o010000)
  let size := if canSeek then length else 0
  let time := encode64 1262304000000 ++ encode64 500000000
  encode64 1 ++ encode64 1 ++ encode64 0 ++ encode32 mode ++ encode32 0 ++ encode32 0 ++
    encode32 0 ++ encode64 0 ++ encode64 size ++ encode64 4096 ++
    encode64 ((size.toInt64 + 511) / 512).toUInt64 ++ time ++ time ++ time ++ encode64 0 ++
    encode64 0 ++ encode64 0

def statFile (f : MountedFile) : Bytes :=
  match f.kind with
  | .sysout => fillStat false true false 0
  | .empty => fillStat true false false 0
  | _ => fillStat true f.writable true f.len

def statName (name : Bytes) : Except Errno Bytes :=
  match fs.byName name with
  | none => .error .enoent
  | some f => .ok (statFile f)

def statFd (fd : Int32) : Except Errno Bytes :=
  match fs.opened fd with
  | none => .error (fs.notOpen .enoent)
  | some (_, f) => .ok (statFile f)

def exists_ (name : Bytes) : Bool := (fs.byName name).isSome

def syncFd (fd : Int32) : Except Errno Unit :=
  match fs.opened fd with
  | none => .error .ebadf
  | some _ => .ok ()

/-! ## Truncating -/

/-- A file of a new length, and the handles on it that stood past the new end at it. -/
def truncated (i : Nat) (size : UInt64) : Files :=
  { fs.onFile i fun f => { f with data := resize f.data size.toNat, len := size } with
    handles := fs.handles.map fun h =>
      if h.file = i ∧ size < h.pos then { h with pos := size } else h }

def truncateName (name : Bytes) (size : Int64) : Except Errno Unit × Files :=
  match fs.byName name with
  | none => (.error .enoent, fs)
  | some f =>
    let i := fs.fileIndex name
    if f.kind = .hostOut ∧ 0 ≤ size then (.ok (), fs.truncated i size.toUInt64)
    else if f.kind ≠ .regular ∨ !f.writable ∨ size < 0 then (.error .ebadf, fs)
    else (.ok (), fs.truncated i size.toUInt64)

def truncateFd (fd : Int32) (size : Int64) : Except Errno Unit × Files :=
  match fs.opened fd with
  | none => (.error (fs.notOpen .enoent), fs)
  | some (_, f) => fs.truncateName f.name size

/-! ## The open files on a stream -/

/-- What a state has of an open file: it is named by its mount name, not by its place. -/
structure HandleRecord where
  fd : Int32
  pos : UInt64
  name : Bytes
  deriving DecidableEq

/-- A record as it is written, with the name's length cut to a word. -/
def HandleRecord.encode (r : HandleRecord) : Bytes :=
  let len := UInt32.ofNat r.name.length
  encode32 r.fd.toUInt32 ++ (encode64 r.pos ++ (encode32 len ++ r.name.take len.toNat))

/-- The handle with the lowest descriptor above `last`. -/
def nextHandle (last : Int32) : Option OpenHandle :=
  fs.handles.foldl
    (fun next h => if last < h.fd ∧ (next.all fun n => h.fd < n.fd) then some h else next) none

def saveLoop : (count : Nat) → (last : Int32) → Option Bytes
  | 0, _ => some []
  | count + 1, last => do
      let h ← fs.nextHandle last
      let f ← fs.files[h.file]?
      let rest ← saveLoop count h.fd
      some ((HandleRecord.mk h.fd h.pos f.name).encode ++ rest)

/-- `mb_fs_save_handles`: the open files, in the order of their descriptors. -/
def saveHandles : Option Bytes := do
  let n := UInt32.ofNat fs.handles.length
  let records ← fs.saveLoop n.toNat (-1)
  some (encode32 n ++ records)

/-- A record read into a name of 4096 bytes, which ends at its first zero. -/
def HandleRecord.read (stream : Bytes) : Option (HandleRecord × Bytes) := do
  let (fd, stream) ← rd32 stream
  let (pos, stream) ← rd64 stream
  let (len, stream) ← rd32 stream
  if 4096 ≤ len then none
  else do
    let (name, stream) ← rd len.toNat stream
    some (⟨fd.toInt32, pos, name.takeWhile (· ≠ 0)⟩, stream)

/-- The rest of a table that is not taken. -/
def skipRecords : (count : Nat) → Bytes → Option Bytes
  | 0, stream => some stream
  | count + 1, stream => do
      let (_, stream) ← HandleRecord.read stream
      skipRecords count stream

/-- The handle a record makes here, if its file is mounted. -/
def handleOf (r : HandleRecord) : Option OpenHandle :=
  (fs.byName r.name).map fun f =>
    ⟨r.fd, fs.fileIndex r.name, if r.pos < f.len ∨ fs.linuxAnswers then r.pos else f.len⟩

/-- The handles of `count` records, or nothing when one names a file that is not mounted. -/
def loadLoop : (count : Nat) → (last : Int32) → Bytes → Option (Option (List OpenHandle) × Bytes)
  | 0, _, stream => some (some [], stream)
  | count + 1, last, stream => do
      let (r, stream) ← HandleRecord.read stream
      if r.fd ≤ last then none
      else
        match fs.handleOf r with
        | none => do
            let stream ← skipRecords count stream
            some (none, stream)
        | some h => do
            let (handles, stream) ← loadLoop count r.fd stream
            some (handles.map (h :: ·), stream)

inductive HandlesLoad where
  /-- 0, and what is left of the stream -/
  | loaded (rest : Bytes)
  /-- 1: a file of the table is not mounted here -/
  | unknown (rest : Bytes)
  /-- -1 -/
  | malformed
  deriving DecidableEq

/-- `mb_fs_load_handles`: the table of a stream in place of this one. -/
def loadHandles (stream : Bytes) : HandlesLoad × Files :=
  match rd32 stream with
  | none => (.malformed, fs)
  | some (n, stream) =>
    if 65536 < n then (.malformed, fs)
    else
      match fs.loadLoop n.toNat (-1) stream with
      | none => (.malformed, fs)
      | some (none, rest) => (.unknown rest, fs)
      | some (some handles, rest) => (.loaded rest, { fs with handles })

end Files

end MiniBox
