import MiniBox.Host.Files
import MiniBox.Host.Guest

/-!
# The system call dispatcher

`dispatch_inner` answers one system call of the running guest thread.  A machine that is
dead runs nothing more, and a stop asked for from another thread is carried out first,
unless the guest worked since.  Each arm then checks the addresses it is about to follow
and answers `EFAULT` for one the guest may not use, or does what was asked.

Vectored reads and writes go through their entries one by one.  `VecEnd` is where that loop
ended: an entry that may not be used ends it, and what was transferred by then is the
answer unless it is nothing.
-/

namespace MiniBox

open Lib GuestMemory

/-- The part of `mb_host` the dispatcher reads or changes, with the rest of `mb_context`. -/
structure Host extends Machine Guest where
  fs : Files
  programBreak : UInt64
  getrandomState : UInt64 := 0
  clockStartNs : UInt64 := 0
  kitRevision : UInt32 := 0
  dead : Bool := false
  /-- a guarded call is in progress: `esc_rsp` is not 0 -/
  guarded : Bool := true
  /-- working system calls, and what the frontend counts on top -/
  activity : UInt64 := 0
  extraWork : UInt64 := 0
  /-- the frontend has said which thread makes its calls -/
  haveStopThread : Bool := false
  stopPending : Bool := false
  stopActivity : UInt64 := 0
  stopWhy : String := ""
  /-- calls made into the guest -/
  calls : UInt64 := 0
  outCall : UInt64 := 0
  outMark : UInt64 := 0

/-- How a system call ends without an answer. -/
inductive Stopped where
  /-- the guest died in it, its memory as it was then -/
  | died (why : Death) (memory : Guest)
  /-- it was dead before -/
  | escaped

abbrev Served := Except Stopped (UInt64 × Host)

/-- An error in the guest's number, or the value. -/
def wordAnswer : Except Errno UInt64 → UInt64
  | .error e => serr e
  | .ok v => sok v

def unitAnswer : Except Errno Unit → UInt64
  | .error e => serr e
  | .ok () => sok 0

/-- `(int)` of an argument. -/
def intArg (a : UInt64) : Int32 := a.toUInt32.toInt32

/-- `AT_FDCWD`. -/
def atFdcwd : Int32 := -100

namespace Host

variable (h : Host)

def block : Block := h.memory.block

def withMemory (memory : Guest) : Host := { h with memory }

def withBlock (block : Block) : Host := h.withMemory { h.memory with block }

/-! ## Mappings -/

def argToProt (a : UInt64) : Option Prot :=
  if a &&& ~~~7 ≠ 0 then none
  else if a &&& 4 ≠ 0 then some (if a &&& 2 ≠ 0 then .rwx else .rx)
  else if a &&& 2 ≠ 0 then some .rw
  else if a &&& 1 ≠ 0 then some .r
  else some .none

/-- A length rounded up to a page, as the kernel does. -/
def pageLength (len : UInt64) : UInt64 := (len + 0xfff) &&& ~~~0xfff

/-- The words `diag_guest_callers` looks at, from `p` up to `stop`, until `left` of them were
addresses in the image. -/
def callerWords (stop : UInt64) : (fuel left : Nat) → (p : UInt64) → List UInt64
  | 0, _, _ => []
  | _, 0, _ => []
  | fuel + 1, left + 1, p =>
    if stop < p + 8 then []
    else
      let word := UInt64.ofNat (leVal (h.block.bytesAt p 8))
      let left := if h.memory.layout.elf.contains word then left else left + 1
      p :: callerWords stop fuel left (p + 8)

/-- Where `diag_guest_callers` looks: from the stack pointer, eight pages of the stack it is
on. -/
def callers : List UInt64 :=
  let rsp := h.context.guestRsp
  let l := h.memory.layout
  if rsp = 0 then []
  else
    let walk (stack : Range) :=
      let stop := if stack.finish < rsp + 8 * 4096 then stack.finish else rsp + 8 * 4096
      h.callerWords stop (8 * 4096 / 8) 12 rsp
    if l.mainThread.contains rsp then walk l.mainThread
    else if l.altThread.contains rsp then walk l.altThread
    else []

/-- `diag_guest_callers`: who asked, for the log. -/
def diagGuestCallers : Host :=
  h.withMemory { h.memory with
    touched := (h.callers.map fun p => ⟨h.block, p, 8, false, true⟩) ++ h.memory.touched }

/-- `mb_block_range_is_free`. -/
def rangeIsFree (r : Range) : Bool :=
  match h.block.validate r with
  | none => false
  | some (start, count) => allPages start count h.block.isFree

/-- `NR_mmap` once its protection is known. -/
def mmapAt (r : Range) (prot : Prot) (noReplace : Bool) : UInt64 × Host :=
  let arena := h.memory.layout.mmapArena
  match h.block.mmap r prot arena noReplace (h.threads.spec == 3) with
  | (.ok a, b) => (sok a, h.withBlock b)
  | (.error e, b) =>
    -- bigger than the whole arena is a mistake: the log says who asked
    (serr e, if arena.size < r.size then (h.withBlock b).diagGuestCallers else h.withBlock b)

def mmap (addr len prot flags : UInt64) : UInt64 × Host :=
  match argToProt prot with
  | none => (serr .einval, h)
  | some prot =>
    if flags &&& 0x20 = 0 then (serr .enotsup, h)
    else if flags &&& 0xf00 ≠ 0 then (serr .enotsup, h)
    else if flags &&& 0x20000 ≠ 0 ∧ prot ≠ .rw then (serr .einval, h)
    else
      let prot := if flags &&& 0x20000 ≠ 0 then .rwStack else prot
      let noReplace := flags &&& 0x100000 != 0
      let r : Range := ⟨addr, pageLength len⟩
      -- spec 3: a hint is a hint, and MAP_FIXED is not one
      let hint := h.threads.spec = 3 ∧ addr ≠ 0 ∧ noReplace = false ∧ flags &&& 0x10 = 0
      h.mmapAt (if hint ∧ h.rangeIsFree r = false then { r with start := 0 } else r) prot noReplace

def mremap (addr len newLen flags : UInt64) : UInt64 × Host :=
  let r : Range := ⟨addr, len⟩
  let (res, b) :=
    if h.threads.spec = 3 then
      if flags &&& 2 ≠ 0 then (.error .einval, h.block)
      else h.block.mremapMaymove r newLen h.memory.layout.mmapArena (flags &&& 1 != 0)
    else h.block.mremap r newLen
  (wordAnswer res, h.withBlock b)

/-- A length that would wrap when it is rounded up. -/
def wraps (len : UInt64) : Bool := decide (0xffffffffffffffff - 0xfff < len)

def mprotect (addr len prot : UInt64) : UInt64 × Host :=
  match argToProt prot with
  | none => (serr .einval, h)
  | some prot =>
    if wraps len then (serr .einval, h)
    else
      let (res, b) := h.block.mprotect ⟨addr, pageLength len⟩ prot
      (unitAnswer res, h.withBlock b)

/-- `NR_munmap`: a thread that frees the stack it stands on frees it when it exits. -/
def munmap (addr len : UInt64) : UInt64 × Host :=
  if wraps len then (serr .einval, h)
  else
    let r : Range := ⟨addr, pageLength len⟩
    match h.threads.holdStackUnmap r with
    | (true, threads) => (sok 0, { h with threads })
    | (false, _) =>
      let (res, b) := h.block.munmap r
      (unitAnswer res, h.withBlock b)

def madvise (addr len advice : UInt64) : UInt64 × Host :=
  if advice = 4 then
    if wraps len then (serr .einval, h)
    else
      let (res, b) := h.block.madviseDontneed ⟨addr, pageLength len⟩
      (unitAnswer res, h.withBlock b)
  else (sok 0, h)

/-- `NR_brk`: the break moves up only, and whatever the mapping answers. -/
def brk (a : UInt64) : UInt64 × Host :=
  let arena := h.memory.layout.sbrk
  let old := h.programBreak
  if a ≠ alignDown a ∨ a < arena.start ∨ arena.finish < a ∨ a ≤ old then (sok old, h)
  else
    let b := (h.block.mmapFixed ⟨old, a - old⟩ .rw true false).2
    (sok a, { h.withBlock b with programBreak := a })

/-! ## Answers written whole -/

/-- `len` bytes are asked for, and `bytes` written there. -/
def put (addr len : UInt64) (bytes : Bytes) (ok : UInt64) : UInt64 × Host :=
  if !h.memory.guestCan addr len true then (serr .efault, h)
  else (ok, h.withMemory (h.memory.store addr bytes))

def zeros (n : Nat) : Bytes := List.replicate n 0

/-- What a terminal request is answered with: `TIOCGWINSZ`, `TCGETS` and `FIONREAD`. -/
def ioctlOut (req : UInt64) : Nat :=
  match req &&& 0xffffffff with
  | 0x5413 => 8
  | 0x5401 => 36
  | 0x541B => 4
  | _ => 0

def ioctl (req arg : UInt64) : UInt64 × Host :=
  let out := ioctlOut req
  if out = 0 then (sok 0, h) else h.put arg (UInt64.ofNat out) (zeros out) (sok 0)

/-- `mem_unit` is at 104, and was at 100 before kit revision 1. -/
def sysinfoBytes : Bytes :=
  let new := decide (1 ≤ h.kitRevision)
  zeros 32 ++ encode64 0x40000000 ++ encode64 0x20000000 ++ zeros 48 ++
    encode64 (if new then 0 else 0x100000000) ++ encode64 (if new then 1 else 0)

def sysinfo (buf : UInt64) : UInt64 × Host := h.put buf 112 h.sysinfoBytes (sok 0)

def getrusage (buf : UInt64) : UInt64 × Host := h.put buf 144 (zeros 144) (sok 0)

/-- One word of the entropy stream: splitmix64. -/
def splitmix (state : UInt64) : UInt64 :=
  let z := state
  let z := (z ^^^ (z >>> 30)) * 0xBF58476D1CE4E5B9
  let z := (z ^^^ (z >>> 27)) * 0x94D049BB133111EB
  z ^^^ (z >>> 31)

/-- `words` more words of the stream, and its state after them. -/
def randomWords : (words : Nat) → (state : UInt64) → Bytes × UInt64
  | 0, state => ([], state)
  | words + 1, state =>
    let state := state + 0x9E3779B97F4A7C15
    let (rest, after) := randomWords words state
    (encode64 (splitmix state) ++ rest, after)

def getrandom (buf len : UInt64) : UInt64 × Host :=
  if !h.memory.guestCan buf len true then (serr .efault, h)
  else
    let (bytes, state) := randomWords ((len.toNat + 7) / 8) h.getrandomState
    (sok len, { h.withMemory (h.memory.store buf (bytes.take len.toNat)) with
      getrandomState := state })

/-- `NR_rt_sigaction` and `NR_rt_sigprocmask`: what is handed over is asked for and not read,
and the old value is written as nothing. -/
def signalCall (new old len : UInt64) : UInt64 × Host :=
  if new ≠ 0 ∧ !h.memory.guestCan new len false then (serr .efault, h)
  else if old = 0 then (sok 0, h)
  else h.put old len (zeros len.toNat) (sok 0)

def rtSigaction (new old : UInt64) : UInt64 × Host := h.signalCall new old 32

def rtSigprocmask (new old size : UInt64) : UInt64 × Host :=
  if 128 < size then (serr .einval, h) else h.signalCall new old size

/-- `NR_sched_getaffinity`: one CPU. -/
def schedGetaffinity (len mask : UInt64) : UInt64 × Host :=
  if mask = 0 ∨ len < 8 then (serr .einval, h)
  else
    let len := if 4096 < len then 4096 else len
    h.put mask len (1 :: zeros (len.toNat - 1)) (sok 8)

/-! ## Files -/

def withFiles (fs : Files) : Host := { h with fs }

/-- `note_output`: where the words of the call that last wrote any begin. -/
def noteOutput (before : UInt64) : Host :=
  if h.fs.output.total = before ∨ h.outCall = h.calls then h
  else { h with outCall := h.calls, outMark := before }

def stat (name buf : UInt64) : UInt64 × Host :=
  match h.memory.str name with
  | (none, memory) => (serr .efault, h.withMemory memory)
  | (some name, memory) =>
    let h := h.withMemory memory
    if !h.memory.guestCan buf 144 true then (serr .efault, h)
    else
      match h.fs.statName name with
      | .error e => (serr e, h)
      | .ok bytes => (sok 0, h.withMemory (h.memory.store buf bytes))

def fstat (fd buf : UInt64) : UInt64 × Host :=
  if !h.memory.guestCan buf 144 true then (serr .efault, h)
  else
    match h.fs.statFd (intArg fd) with
    | .error e => (serr e, h)
    | .ok bytes => (sok 0, h.withMemory (h.memory.store buf bytes))

/-- `mb_fs_read` into the guest's buffer. -/
def readInto (fd : Int32) (buf len : UInt64) : Except Errno UInt64 × Host :=
  match h.fs.read fd len with
  | (.error e, fs) => (.error e, h.withFiles fs)
  | (.ok got, fs) =>
    (.ok (UInt64.ofNat got.length), (h.withFiles fs).withMemory (h.memory.store buf got))

/-- `mb_fs_write` from the guest's buffer, which a write that is refused does not read. -/
def writeFrom (fd : Int32) (buf len : UInt64) : Except Errno UInt64 × Host :=
  let (bytes, memory) := h.memory.load buf len
  match h.fs.write fd bytes with
  | (.error e, fs) => (.error e, h.withFiles fs)
  | (.ok n, fs) => (.ok n, (h.withFiles fs).withMemory memory)

def read (fd buf len : UInt64) : UInt64 × Host :=
  if !h.memory.guestCan buf (h.fs.readAvail (intArg fd) len) true then (serr .efault, h)
  else
    let (res, h) := h.readInto (intArg fd) buf len
    (wordAnswer res, h)

def write (fd buf len : UInt64) : UInt64 × Host :=
  if !h.memory.guestCan buf len false then (serr .efault, h)
  else
    let before := h.fs.output.total
    let (res, h) := h.writeFrom (intArg fd) buf len
    (wordAnswer res, h.noteOutput before)

/-- Where the loop over a vector's entries ended. -/
inductive VecEnd where
  | done (total : UInt64)
  /-- at an entry that may not be used -/
  | refused (total : UInt64)
  | failed (e : Errno)
  deriving DecidableEq

def VecEnd.answer : VecEnd → UInt64
  | .done total => sok total
  | .refused total => if total ≠ 0 then sok total else serr .efault
  | .failed e => serr e

/-- The entries from `i` on, `left` of them; an entry without a base is passed over. -/
def vecLoop (reads : Bool) (fd : Int32) (iov : UInt64) :
    (left i : Nat) → (total : UInt64) → Host → VecEnd × Host
  | 0, _, total, h => (.done total, h)
  | left + 1, i, total, h =>
    let entry := iov + 16 * UInt64.ofNat i
    let (base, memory) := read64 h.memory entry
    let h := h.withMemory memory
    if base = 0 then vecLoop reads fd iov left (i + 1) total h
    else
      let (len, memory) := read64 h.memory (entry + 8)
      let h := h.withMemory memory
      let want := if reads then h.fs.readAvail fd len else len
      if !h.memory.guestCan base want reads then (.refused total, h)
      else
        match if reads then h.readInto fd base len else h.writeFrom fd base len with
        | (.error e, h) => (.failed e, h)
        | (.ok n, h) => vecLoop reads fd iov left (i + 1) (total + n) h

/-- `NR_readv` and `NR_writev`. -/
def vectored (reads : Bool) (fd iov count : UInt64) : UInt64 × Host :=
  if 1024 < count then (serr .einval, h)
  else if !h.memory.guestCan iov (count * 16) false then (serr .efault, h)
  else
    let before := h.fs.output.total
    let (ended, h) := vecLoop reads (intArg fd) iov count.toNat 0 0 h
    (ended.answer, h.noteOutput before)

/-- `NR_pread64`: there, read, and back. -/
def pread (fd buf len offset : UInt64) : UInt64 × Host :=
  let fd := intArg fd
  match h.fs.seek fd 0 (some .cur) with
  | (.error e, fs) => (serr e, h.withFiles fs)
  | (.ok pos, fs) =>
    match fs.seek fd offset.toInt64 (some .set) with
    | (.error e, fs) => (serr e, h.withFiles fs)
    | (.ok _, fs) =>
      let h := h.withFiles fs
      if !h.memory.guestCan buf (h.fs.readAvail fd len) true then
        (serr .efault, h.withFiles (h.fs.seek fd pos (some .set)).2)
      else
        let (res, h) := h.readInto fd buf len
        (wordAnswer res, h.withFiles (h.fs.seek fd pos (some .set)).2)

def pwrite (fd buf len offset : UInt64) : UInt64 × Host :=
  if !h.memory.guestCan buf len false then (serr .efault, h)
  else
    let (bytes, memory) := h.memory.load buf len
    match h.fs.pwrite (intArg fd) bytes offset.toInt64 with
    | (.error e, fs) => (serr e, h.withFiles fs)
    | (.ok n, fs) => (sok n, (h.withFiles fs).withMemory memory)

/-- `open_file`: in spec 3 `O_TRUNC` needs write access, and empties what was opened. -/
def openFile (name : Bytes) (flags : UInt32) : UInt64 × Host :=
  let truncates := h.threads.spec = 3 ∧ flags &&& 0x200 ≠ 0
  if truncates ∧ flags &&& 3 = 0 then (serr .eacces, h)
  else
    match h.fs.open_ name flags with
    | (.error e, fs) => (serr e, h.withFiles fs)
    | (.ok fd, fs) =>
      if truncates then
        match fs.truncateFd fd 0 with
        | (.error .ebadf, fs) => (sok fd.toInt64.toUInt64, h.withFiles fs)
        | (.error e, fs) => (serr e, h.withFiles fs)
        | (.ok (), fs) => (sok fd.toInt64.toUInt64, h.withFiles fs)
      else (sok fd.toInt64.toUInt64, h.withFiles fs)

/-- What is done with the string at an address. -/
def named (addr : UInt64) (f : Host → Bytes → UInt64 × Host) : UInt64 × Host :=
  match h.memory.str addr with
  | (none, memory) => (serr .efault, h.withMemory memory)
  | (some name, memory) => f (h.withMemory memory) name

def open_ (name flags : UInt64) : UInt64 × Host :=
  h.named name fun h name => h.openFile name flags.toUInt32

def openat (dirfd name flags : UInt64) : UInt64 × Host :=
  if intArg dirfd ≠ atFdcwd then (serr .ebadf, h) else h.open_ name flags

def newfstatat (dirfd name buf : UInt64) : UInt64 × Host :=
  if intArg dirfd ≠ atFdcwd then (serr .ebadf, h) else h.stat name buf

/-- `NR_readlink`: nothing is a link. -/
def readlink (name buf len : UInt64) : UInt64 × Host :=
  h.named name fun h name =>
    if len ≠ 0 ∧ !h.memory.owns buf 1 then (serr .efault, h)
    else (serr (if h.fs.exists_ name then .einval else .enoent), h)

def readlinkat (dirfd name buf len : UInt64) : UInt64 × Host :=
  if intArg dirfd ≠ atFdcwd then (serr .ebadf, h) else h.readlink name buf len

def close (fd : UInt64) : UInt64 × Host :=
  let (res, fs) := h.fs.close (intArg fd)
  (unitAnswer res, h.withFiles fs)

def dup (fd : UInt64) : UInt64 × Host :=
  match h.fs.dup (intArg fd) with
  | (.error e, fs) => (serr e, h.withFiles fs)
  | (.ok fd, fs) => (sok fd.toInt64.toUInt64, h.withFiles fs)

def lseek (fd offset whence : UInt64) : UInt64 × Host :=
  match h.fs.seek (intArg fd) offset.toInt64 (Files.Whence.ofWord (intArg whence)) with
  | (.error e, fs) => (serr e, h.withFiles fs)
  | (.ok pos, fs) => (sok pos.toUInt64, h.withFiles fs)

def truncate (name size : UInt64) : UInt64 × Host :=
  h.named name fun h name =>
    let (res, fs) := h.fs.truncateName name size.toInt64
    (unitAnswer res, h.withFiles fs)

def ftruncate (fd size : UInt64) : UInt64 × Host :=
  let (res, fs) := h.fs.truncateFd (intArg fd) size.toInt64
  (unitAnswer res, h.withFiles fs)

/-! ## Threads and time -/

/-- A thread or time system call. -/
def threadCall (c : ThreadCall) : Served :=
  match c.run h.clockStartNs h.toMachine with
  | .error (why, memory) => .error (.died why memory)
  | .ok (ret, m) => .ok (ret, { h with toMachine := m })

end Host

/-! ## The dispatcher -/

/-- The system calls there are. -/
inductive Nr where
  | read | write | open_ | close | dup | stat | fstat | lseek | mmap | mprotect | munmap | brk
  | rtSigaction | rtSigprocmask | ioctl | readv | writev | schedYield | mremap | madvise | nanosleep
  | getpid | exit | truncate | ftruncate | getppid | gettid | futex | schedSetaffinity
  | schedGetaffinity | pread64 | pwrite64 | socket | sysinfo | prctl | openat | newfstatat
  | setThreadArea | clockNanosleep | clockGettime | setTidAddress | getrandom | fcntl | fsync
  | fdatasync | sync | syncfs | getuid | getgid | geteuid | getegid | wbxClone | getrusage | tkill
  | exitGroup | tgkill | readlink | readlinkat | pipe | pipe2
  deriving DecidableEq

/-- The call of an x86-64 number. -/
def Nr.ofWord (nr : UInt64) : Option Nr :=
  match nr with
  | 0 => some .read | 1 => some .write | 2 => some .open_ | 3 => some .close | 32 => some .dup
  | 4 => some .stat | 5 => some .fstat | 8 => some .lseek | 9 => some .mmap | 10 => some .mprotect
  | 11 => some .munmap | 12 => some .brk | 13 => some .rtSigaction | 14 => some .rtSigprocmask
  | 16 => some .ioctl | 19 => some .readv | 20 => some .writev | 24 => some .schedYield
  | 25 => some .mremap | 28 => some .madvise | 35 => some .nanosleep | 39 => some .getpid
  | 60 => some .exit | 76 => some .truncate | 77 => some .ftruncate | 110 => some .getppid
  | 186 => some .gettid | 202 => some .futex | 203 => some .schedSetaffinity
  | 204 => some .schedGetaffinity | 17 => some .pread64 | 18 => some .pwrite64 | 41 => some .socket
  | 99 => some .sysinfo | 157 => some .prctl | 257 => some .openat | 262 => some .newfstatat
  | 205 => some .setThreadArea | 230 => some .clockNanosleep | 228 => some .clockGettime
  | 218 => some .setTidAddress | 318 => some .getrandom | 72 => some .fcntl | 74 => some .fsync
  | 75 => some .fdatasync | 162 => some .sync | 306 => some .syncfs | 102 => some .getuid
  | 104 => some .getgid | 107 => some .geteuid | 108 => some .getegid | 2000 => some .wbxClone
  | 98 => some .getrusage | 200 => some .tkill | 231 => some .exitGroup | 234 => some .tgkill
  | 89 => some .readlink | 267 => some .readlinkat | 22 => some .pipe | 293 => some .pipe2
  | _ => none

/-- The calls that are not work: yields, sleeps, clock reads, futexes and ids. -/
def Nr.waits : Nr → Bool
  | .schedYield | .clockGettime | .nanosleep | .clockNanosleep | .futex | .gettid | .getpid => true
  | _ => false

/-- The arguments of a system call; the sixth is read on another processor only. -/
structure Args where
  a1 : UInt64 := 0
  a2 : UInt64 := 0
  a3 : UInt64 := 0
  a4 : UInt64 := 0
  a5 : UInt64 := 0
  deriving DecidableEq

namespace Host

variable (h : Host)

def hex (v : UInt64) : String := String.ofList (Nat.toDigits 16 v.toNat)

/-- One arm of the dispatcher. -/
def serve (nr : Nr) (a : Args) : Served :=
  match nr with
  | .mmap => .ok (h.mmap a.a1 a.a2 a.a3 a.a4)
  | .mremap => .ok (h.mremap a.a1 a.a2 a.a3 a.a4)
  | .mprotect => .ok (h.mprotect a.a1 a.a2 a.a3)
  | .munmap => .ok (h.munmap a.a1 a.a2)
  | .madvise => .ok (h.madvise a.a1 a.a2 a.a3)
  | .brk => .ok (h.brk a.a1)
  | .stat => .ok (h.stat a.a1 a.a2)
  | .fstat => .ok (h.fstat a.a1 a.a2)
  | .ioctl => .ok (h.ioctl a.a2 a.a3)
  | .pipe | .pipe2 => .ok (serr .enosys, h)
  | .read => .ok (h.read a.a1 a.a2 a.a3)
  | .write => .ok (h.write a.a1 a.a2 a.a3)
  | .readv => .ok (h.vectored true a.a1 a.a2 a.a3)
  | .writev => .ok (h.vectored false a.a1 a.a2 a.a3)
  | .open_ => .ok (h.open_ a.a1 a.a2)
  | .sysinfo => .ok (h.sysinfo a.a1)
  | .getrusage => .ok (h.getrusage a.a2)
  | .prctl => .ok (if intArg a.a1 = 15 then sok 0 else serr .einval, h)
  | .pread64 => .ok (h.pread a.a1 a.a2 a.a3 a.a4)
  | .socket => .ok (serr .eafnosupport, h)
  | .pwrite64 => .ok (h.pwrite a.a1 a.a2 a.a3 a.a4)
  | .openat => .ok (h.openat a.a1 a.a2 a.a3)
  | .newfstatat => .ok (h.newfstatat a.a1 a.a2 a.a3)
  | .readlink => .ok (h.readlink a.a1 a.a2 a.a3)
  | .readlinkat => .ok (h.readlinkat a.a1 a.a2 a.a3 a.a4)
  | .close => .ok (h.close a.a1)
  | .dup => .ok (h.dup a.a1)
  | .lseek => .ok (h.lseek a.a1 a.a2 a.a3)
  | .truncate => .ok (h.truncate a.a1 a.a2)
  | .ftruncate => .ok (h.ftruncate a.a1 a.a2)
  | .clockGettime => h.threadCall (.clockGettime a.a2)
  | .getrandom => .ok (h.getrandom a.a1 a.a2)
  | .fcntl =>
    let cmd := intArg a.a2
    .ok (if cmd = 1 ∨ cmd = 2 ∨ cmd = 3 ∨ cmd = 4 then sok 0 else serr .einval, h)
  | .sync => .ok (sok 0, h)
  | .fsync | .fdatasync | .syncfs => .ok (unitAnswer (h.fs.syncFd (intArg a.a1)), h)
  | .rtSigaction => .ok (h.rtSigaction a.a2 a.a3)
  | .rtSigprocmask => .ok (h.rtSigprocmask a.a2 a.a3 a.a4)
  | .tkill => h.threadCall (.tkill a.a1 a.a2)
  | .tgkill => h.threadCall (.tkill a.a2 a.a3)
  | .exitGroup =>
    .error (.died (.guest ("the core exited (status " ++ toString a.a1.toInt64.toInt ++
      ")")) h.memory)
  | .setThreadArea => .ok (serr .enosys, h)
  | .setTidAddress => h.threadCall (.setTidAddress a.a1)
  | .gettid => h.threadCall .gettid
  | .getpid | .getppid => .ok (sok 1, h)
  | .getuid | .geteuid | .getgid | .getegid => .ok (sok 1000, h)
  | .schedYield => h.threadCall .schedYield
  | .nanosleep => h.threadCall (.nanosleep a.a1)
  | .clockNanosleep => h.threadCall (.clockNanosleep a.a2 a.a3 a.a4)
  | .wbxClone => h.threadCall (.wbxClone a.a1 a.a2 a.a3 a.a4 a.a5)
  | .schedSetaffinity => .ok (sok 0, h)
  | .schedGetaffinity => .ok (h.schedGetaffinity a.a2 a.a3)
  | .exit => h.threadCall .exit
  | .futex => h.threadCall (.futex a.a1 a.a2 a.a3 a.a4 a.a5)

/-- `mb_stop_due`: a pending stop is carried out while the guest has not worked since it was
asked for, and is dropped otherwise. -/
def stopDue : Bool × Host :=
  if !h.stopPending || !h.guarded then (false, h)
  else if h.activity + h.extraWork ≠ h.stopActivity then (false, { h with stopPending := false })
  else (true, h)

/-- The count of the guest's work, this call in it. -/
def countWork (nr : Option Nr) : Host :=
  match nr with
  | some nr => if nr.waits then h else { h with activity := h.activity + 1 }
  | none => { h with activity := h.activity + 1 }

/-- `dispatch_inner`. -/
def dispatchInner (nr : UInt64) (a : Args) : Served :=
  if h.dead && h.guarded then .error .escaped
  else
    match (h.countWork (Nr.ofWord nr)).stopDue with
    | (true, h) => .error (.died (.guest h.stopWhy) h.memory)
    | (false, h) =>
      match Nr.ofWord nr with
      | some nr => h.serve nr a
      | none =>
        .error (.died (.guest ("the core asked for system call " ++ toString nr.toNat ++ " (" ++
          hex a.a1 ++ ", " ++ hex a.a2 ++ ", " ++ hex a.a3 ++
          "), which the sandbox does not provide")) h.memory)

end Host

end MiniBox
