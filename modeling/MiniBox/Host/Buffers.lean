import MiniBox.Host.Descriptors
import MiniBox.Lib.Slice

/-!
# Files in buffers that grow

A regular file's bytes are in a buffer that may be longer than the file: `data` is read here as
the buffer, its length is `cap`, and the file is its first `len` bytes.  A write past the buffer
reallocates it, and the new bytes are whatever the heap had; a write or a truncation past the
end of the file zeroes the gap.  `mb_fs_write` and `mb_fs_pwrite` each do this for themselves.

`Files.cut` cuts every buffer to its file.  What is left is the table of `MiniBox.Host.Files`,
and the operations on buffers are the ones there (`Whole.writeBuffer`, `Whole.pwriteBuffer`,
`Whole.truncateBuffer`): of the heap's bytes none is ever part of a file.

A write of nothing is where the two ways to write differ.  `mb_fs_pwrite` returns before it looks
at the offset, and `mb_fs_write` moves the end of the file to the position
(`writeBuffer_eq_pwriteBuffer`).
-/

namespace MiniBox

open Lib Files

/-- `realloc`: what was there, as far as it fits, and past it whatever the heap had. -/
def realloc (data : Bytes) (size : Nat) (heap : Nat → UInt8) : Bytes :=
  data.take size ++ (List.range (size - data.length)).map heap

/-- `memset` of zeros from `len` up to `upto`. -/
def clearGap (data : Bytes) (len upto : UInt64) : Bytes :=
  if len < upto then patch data len.toNat (List.replicate (upto - len).toNat 0) else data

namespace MountedFile

variable (heap : Nat → UInt8) (f : MountedFile)

/-- `buf` from `at_` up to `end_` in the buffer, which grows when it is too short. -/
def store (at_ end_ : UInt64) (buf : Bytes) : MountedFile :=
  let data := if f.data.length < end_.toNat then realloc f.data end_.toNat heap else f.data
  { f with
    data := patch (clearGap data f.len at_) at_.toNat buf
    len := if f.len < end_ then end_ else f.len }

/-- `host_write`; the host's file system fills a gap with zeros, when something is written
past it. -/
def hostWrite (at_ : UInt64) (buf : Bytes) : MountedFile :=
  let end_ := at_ + UInt64.ofNat buf.length
  { f with
    data := if buf = [] then f.data else writeAt f.data at_.toNat buf
    len := if f.len < end_ then end_ else f.len }

end MountedFile

namespace Files

variable (fs : Files) (heap : Nat → UInt8)

/-- `mb_fs_write`. -/
def writeBuffer (fd : Int32) (buf : Bytes) : Except Errno UInt64 × Files :=
  match fs.opened fd with
  | none => (.error (fs.notOpen .enoent), fs)
  | some (h, f) =>
    let n := UInt64.ofNat buf.length
    if f.kind = .sysout then (.ok n, { fs with output := fs.output.remember buf })
    else if f.kind = .empty ∨ !f.writable then (.error .ebadf, fs)
    else
      let newpos := h.pos + n
      if newpos < h.pos then (.error .efbig, fs)
      else if f.kind = .hostOut then
        (.ok n, (fs.onFile h.file (·.hostWrite h.pos buf)).onHandle fd fun h =>
          if 0 < n then { h with pos := h.pos + n } else h)
      else
        (.ok n, (fs.onFile h.file (·.store heap h.pos newpos buf)).onHandle fd fun h =>
          { h with pos := newpos })

/-- `mb_fs_pwrite`. -/
def pwriteBuffer (fd : Int32) (buf : Bytes) (offset : Int64) : Except Errno UInt64 × Files :=
  match fs.opened fd with
  | none => (.error .ebadf, fs)
  | some (h, f) =>
    let n := UInt64.ofNat buf.length
    if f.kind = .sysout then (.error .espipe, fs)
    else if (f.kind ≠ .regular ∧ f.kind ≠ .hostOut) ∨ !f.writable then (.error .ebadf, fs)
    else if offset < 0 then (.error .einval, fs)
    -- nothing written is nothing grown, wherever it points
    else if n = 0 then (.ok 0, fs)
    else
      let at_ := offset.toUInt64
      let end_ := at_ + n
      if end_ < at_ then (.error .efbig, fs)
      else if f.kind = .hostOut then (.ok n, fs.onFile h.file (·.hostWrite at_ buf))
      else (.ok n, fs.onFile h.file (·.store heap at_ end_ buf))

/-- A regular file's buffer cut or made longer, and the new end of the file. -/
def truncateRegular (i : Nat) (size : UInt64) : Files :=
  { fs.onFile i fun f =>
      { f with data := clearGap (realloc f.data size.toNat heap) f.len size, len := size } with
    handles := fs.handles.map fun h =>
      if h.file = i ∧ size < h.pos then { h with pos := size } else h }

/-- `mb_fs_truncate_name`. -/
def truncateBuffer (name : Bytes) (size : Int64) : Except Errno Unit × Files :=
  match fs.byName name with
  | none => (.error .enoent, fs)
  | some f =>
    let i := fs.fileIndex name
    if f.kind = .hostOut ∧ 0 ≤ size then (.ok (), fs.truncated i size.toUInt64)
    else if f.kind ≠ .regular ∨ !f.writable ∨ size < 0 then (.error .ebadf, fs)
    else (.ok (), fs.truncateRegular heap i size.toUInt64)

/-- `mb_fs_truncate_fd`. -/
def truncateFdBuffer (fd : Int32) (size : Int64) : Except Errno Unit × Files :=
  match fs.opened fd with
  | none => (.error (fs.notOpen .enoent), fs)
  | some (_, f) => fs.truncateBuffer heap f.name size

end Files

/-! ## Byte by byte -/

theorem padded_getElem? (data : Bytes) (at_ i : Nat) :
    (data ++ List.replicate (at_ - data.length) 0)[i]? =
      if i < data.length then data[i]? else if i < at_ then some 0 else none := by
  rw [List.getElem?_append, List.getElem?_replicate]
  split
  · rfl
  · split <;> split <;> first | rfl | omega

/-- A write at an offset, byte by byte: what is written, what was there, and zeros in a gap. -/
theorem writeAt_getElem? (data : Bytes) (at_ : Nat) (buf : Bytes) (i : Nat) :
    (writeAt data at_ buf)[i]? =
      if i < at_ then if i < data.length then data[i]? else some 0
      else if i < at_ + buf.length then buf[i - at_]? else data[i]? := by
  have before : ((data ++ List.replicate (at_ - data.length) 0).take at_).length = at_ := by
    simp
    omega
  rw [writeAt, List.append_assoc, List.getElem?_append, before]
  split
  next inside =>
    rw [List.getElem?_take_of_lt inside, padded_getElem?]
    split
    · rfl
    · rfl
  · rw [List.getElem?_append]
    split <;> split
    · rfl
    · omega
    · omega
    · rw [List.getElem?_drop, padded_getElem?, show at_ + buf.length + (i - at_ - buf.length) =
        i by omega]
      split
      · rfl
      next beyond => rw [List.getElem?_eq_none (by omega)]

theorem resize_getElem? (data : Bytes) (size i : Nat) : (resize data size)[i]? =
    if i < size then if i < data.length then data[i]? else some 0 else none := by
  rw [resize, List.getElem?_append, List.getElem?_take, List.getElem?_replicate, List.length_take]
  by_cases inside : i < size
  · by_cases old : i < data.length
    · rw [if_pos (by omega), if_pos inside, if_pos inside, if_pos old]
    · rw [if_neg (by omega), if_pos (by omega), if_pos inside, if_neg old]
  · rw [if_neg (by omega), if_neg (by omega), if_neg inside]

theorem resize_length (data : Bytes) (size : Nat) : (resize data size).length = size := by
  simp [resize]
  omega

theorem realloc_getElem? (heap : Nat → UInt8) {data : Bytes} {size i : Nat} (old : i < data.length)
    (fits : i < size) : (realloc data size heap)[i]? = data[i]? := by
  rw [realloc, List.getElem?_append_left (by simp; omega), List.getElem?_take_of_lt fits]

theorem realloc_length (data : Bytes) (size : Nat) (heap : Nat → UInt8) :
    (realloc data size heap).length = size := by
  simp [realloc]
  omega

theorem clearGap_length {data : Bytes} {len upto : UInt64} (fits : upto.toNat ≤ data.length) :
    (clearGap data len upto).length = data.length := by
  unfold clearGap
  split
  next past =>
    refine patch_length ?_
    rw [List.length_replicate, toNat_sub_of_lt past]
    have := UInt64.lt_iff_toNat_lt.mp past
    omega
  · rfl

theorem clearGap_getElem? {data : Bytes} {len upto : UInt64} (fits : upto.toNat ≤ data.length)
    (i : Nat) : (clearGap data len upto)[i]? =
      if len.toNat ≤ i ∧ i < upto.toNat then some 0 else data[i]? := by
  unfold clearGap
  split
  next past =>
    have before := UInt64.lt_iff_toNat_lt.mp past
    have length : (List.replicate (upto - len).toNat (0 : UInt8)).length =
        upto.toNat - len.toNat := by
      rw [List.length_replicate, toNat_sub_of_lt past]
    by_cases inside : len.toNat ≤ i ∧ i < upto.toNat
    · rw [if_pos inside, patch_inside (by omega) inside.1 (by omega), List.getElem?_replicate,
        if_pos (by rw [toNat_sub_of_lt past]; omega)]
    · rw [if_neg inside, patch_outside (by omega) (by omega)]
  next none_ =>
    have before := UInt64.le_iff_toNat_le.mp (UInt64.not_lt.mp none_)
    rw [if_neg (by omega)]

namespace MountedFile

variable {f : MountedFile} {at_ end_ : UInt64} {buf : Bytes}

variable (heap : Nat → UInt8)
include heap

theorem store_len (ends : end_.toNat = at_.toNat + buf.length) :
    (f.store heap at_ end_ buf).len.toNat = max f.len.toNat (at_.toNat + buf.length) := by
  unfold store
  dsimp only
  split
  next longer =>
    have := UInt64.lt_iff_toNat_lt.mp longer
    omega
  next within =>
    have := UInt64.le_iff_toNat_le.mp (UInt64.not_lt.mp within)
    omega

/-- The buffer a write goes to has room for it, and what it had. -/
theorem grown_room (data : Bytes) (size : Nat) :
    (if data.length < size then realloc data size heap else data).length = max data.length size ∧
      ∀ i < data.length, (if data.length < size then realloc data size heap else data)[i]? =
      data[i]? := by
  split
  next short =>
    rw [realloc_length]
    exact ⟨by omega, fun i old => realloc_getElem? heap old (by omega)⟩
  next enough => exact ⟨by omega, fun _ _ => rfl⟩

theorem store_length (ends : end_.toNat = at_.toNat + buf.length) :
    (f.store heap at_ end_ buf).data.length = max f.data.length end_.toNat := by
  obtain ⟨room, -⟩ := grown_room heap f.data end_.toNat
  unfold store
  dsimp only
  rw [patch_length, clearGap_length (by omega), room]
  rw [clearGap_length (by omega)]
  omega

/-- What is in the file after a write, byte by byte. -/
theorem store_getElem? (whole : f.len.toNat ≤ f.data.length)
    (ends : end_.toNat = at_.toNat + buf.length) {i : Nat}
    (inside : i < max f.len.toNat (at_.toNat + buf.length)) : (f.store heap at_ end_ buf).data[i]? =
      if i < at_.toNat then if i < f.len.toNat then f.data[i]? else some 0
      else if i < at_.toNat + buf.length then buf[i - at_.toNat]? else f.data[i]? := by
  obtain ⟨room, same⟩ := grown_room heap f.data end_.toNat
  unfold store
  dsimp only
  generalize (if f.data.length < end_.toNat then realloc f.data end_.toNat heap else f.data) = data
    at room same
  have gap : at_.toNat ≤ data.length := by omega
  have length := @clearGap_length data f.len at_ gap
  by_cases before : i < at_.toNat
  · rw [patch_outside (by omega) (.inl before), clearGap_getElem? gap, if_pos before]
    by_cases old : i < f.len.toNat
    · rw [if_neg (by omega), if_pos old, same i (by omega)]
    · rw [if_pos (by omega), if_neg old]
  · rw [if_neg before]
    by_cases written : i < at_.toNat + buf.length
    · rw [patch_inside (by omega) (by omega) written, if_pos written]
    · rw [patch_outside (by omega) (by omega), clearGap_getElem? gap, if_neg (by omega),
        if_neg written, same i (by omega)]

/-- The file is what a write leaves of it, whatever the buffer has past its end. -/
theorem store_cut (whole : f.len.toNat ≤ f.data.length) (ends : end_.toNat = at_.toNat + buf.length)
    :
    (f.store heap at_ end_ buf).data.take (f.store heap at_ end_ buf).len.toNat =
      writeAt (f.data.take f.len.toNat) at_.toNat buf := by
  have cut : (f.data.take f.len.toNat).length = f.len.toNat := by
    rw [List.length_take]
    omega
  refine List.ext_getElem? fun i => ?_
  rw [store_len heap ends, List.getElem?_take, writeAt_getElem?, cut]
  by_cases inside : i < max f.len.toNat (at_.toNat + buf.length)
  · rw [if_pos inside, store_getElem? heap whole ends inside]
    by_cases old : i < f.len.toNat
    · rw [List.getElem?_take_of_lt old]
    · have written : i < at_.toNat + buf.length := by omega
      rw [if_neg old, if_pos written, if_neg old, if_pos written]
  · rw [if_neg inside, if_neg (by omega), if_neg (by omega), List.getElem?_eq_none (by omega)]

/-- A truncation leaves the file cut, or made longer with zeros. -/
theorem truncated_cut (whole : f.len.toNat ≤ f.data.length) (size : UInt64) :
    clearGap (realloc f.data size.toNat heap) f.len size = resize
    (f.data.take f.len.toNat) size.toNat := by
  have room : size.toNat ≤ (realloc f.data size.toNat heap).length := by rw [realloc_length]
  refine List.ext_getElem? fun i => ?_
  rw [clearGap_getElem? room, resize_getElem?, List.length_take, Nat.min_eq_left whole]
  by_cases inside : i < size.toNat
  · rw [if_pos inside]
    by_cases old : i < f.len.toNat
    · rw [if_neg (by omega), if_pos old, realloc_getElem? heap (by omega) inside,
        List.getElem?_take_of_lt old]
    · rw [if_pos (by omega), if_neg old]
  · rw [if_neg (by omega), if_neg inside, List.getElem?_eq_none (by rw [realloc_length]; omega)]

end MountedFile

/-! ## Two ways to write -/

namespace MountedFile

variable {f : MountedFile} {heap : Nat → UInt8} {at_ : UInt64}

/-- A file that can be written, with `buf` at `at_`: in memory, or on the host's disk. -/
def put (heap : Nat → UInt8) (at_ : UInt64) (buf : Bytes) (f : MountedFile) : MountedFile :=
  if f.kind = .hostOut then f.hostWrite at_ buf
  else f.store heap at_ (at_ + UInt64.ofNat buf.length) buf

theorem put_disk (heap : Nat → UInt8) (at_ : UInt64) (buf : Bytes) (disk : f.kind = .hostOut) :
    f.put heap at_ buf = f.hostWrite at_ buf := if_pos disk

theorem put_memory (heap : Nat → UInt8) (at_ : UInt64) (buf : Bytes) (memory : f.kind ≠ .hostOut) :
    f.put heap at_ buf = f.store heap at_ (at_ + UInt64.ofNat buf.length) buf := if_neg memory

/-- Nothing put at or before the end leaves the file as it is. -/
theorem put_nil (whole : f.kind = .regular → f.len.toNat ≤ f.data.length)
    (stored : f.kind = .regular ∨ f.kind = .hostOut) (before : at_ ≤ f.len) :
    f.put heap at_ [] = f := by
  have kept : ¬ f.len < at_ := UInt64.not_lt.mpr before
  unfold put
  rcases stored with regular | disk
  · have short : ¬ f.data.length < at_.toNat := by
      have := UInt64.le_iff_toNat_le.mp before
      have := whole regular
      omega
    rw [if_neg (by rw [regular]; decide)]
    simp [store, clearGap, patch, short, kept]
  · rw [if_pos disk]
    simp [hostWrite, kept]

/-- Nothing put past the end moves the end. -/
theorem put_nil_len (past : f.len < at_) : (f.put heap at_ []).len = at_ := by
  unfold put
  split
  · simp [hostWrite, past]
  · simp [store, past]

end MountedFile

namespace Files

variable {fs : Files} {heap : Nat → UInt8} {fd : Int32} {h : OpenHandle} {f : MountedFile}

/-- How a descriptor is found with its file. -/
theorem opened_parts (opened : fs.opened fd = some (h, f)) :
    fs.handles[fs.handleIndex fd]? = some h ∧ fs.files[h.file]? = some f := by
  unfold Files.opened at opened
  split at opened
  · cases opened
  next k found =>
    obtain ⟨q, at_, same⟩ := Option.map_eq_some_iff.mp opened
    cases same
    refine ⟨?_, at_⟩
    rw [handleIndex, ← List.find?_eq_getElem?_findIdx]
    exact found

theorem onFile_congr {i : Nat} {change change' : MountedFile → MountedFile}
    (here : fs.files[i]? = some f) (same : change f = change' f) :
    fs.onFile i change = fs.onFile i change' := by
  unfold onFile
  rw [modify_congr here same]

theorem onHandle_congr {change change' : OpenHandle → OpenHandle}
    (here : fs.handles[fs.handleIndex fd]? = some h) (same : change h = change' h) :
    fs.onHandle fd change = fs.onHandle fd change' := by
  unfold onHandle
  rw [modify_congr here same]

section Writable

variable (opened : fs.opened fd = some (h, f)) (stored : f.kind = .regular ∨ f.kind = .hostOut)
  (writable : f.writable = true)

include opened stored writable

theorem writeBuffer_eq (buf : Bytes) : fs.writeBuffer heap fd buf =
    if h.pos + UInt64.ofNat buf.length < h.pos then (.error .efbig, fs)
    else (.ok (UInt64.ofNat buf.length), (fs.onFile h.file (.put heap h.pos buf)).onHandle fd
      fun h =>
      { h with pos := h.pos + UInt64.ofNat buf.length }) := by
  obtain ⟨place, file⟩ := opened_parts opened
  unfold writeBuffer
  rw [opened]
  dsimp only
  rw [if_neg (by rcases stored with is | is <;> rw [is] <;> decide),
    if_neg (by rcases stored with is | is <;> simp [is, writable])]
  split
  · rfl
  · -- both change the file and the handle that were found
    have found : (fs.onFile h.file (.put heap h.pos buf)).handles[
        (fs.onFile h.file (.put heap h.pos buf)).handleIndex fd]? = some h := place
    split
    next disk =>
      rw [onFile_congr file (MountedFile.put_disk heap h.pos buf disk).symm]
      refine congrArg (Prod.mk _) (onHandle_congr found ?_)
      split
      · rfl
      next none_ => rw [UInt64.le_zero_iff.mp (UInt64.not_lt.mp none_), UInt64.add_zero]
    next memory =>
      rw [onFile_congr file (MountedFile.put_memory heap h.pos buf memory).symm]
      exact congrArg (Prod.mk _) (onHandle_congr found rfl)

theorem pwriteBuffer_eq (buf : Bytes) {offset : Int64} (nonneg : 0 ≤ offset) :
    fs.pwriteBuffer heap fd buf offset =
      if UInt64.ofNat buf.length = 0 then (.ok 0, fs)
      else if offset.toUInt64 + UInt64.ofNat buf.length < offset.toUInt64 then (.error .efbig, fs)
      else (.ok (UInt64.ofNat buf.length), fs.onFile h.file (.put heap offset.toUInt64 buf)) := by
  obtain ⟨-, file⟩ := opened_parts opened
  unfold pwriteBuffer
  rw [opened]
  dsimp only
  rw [if_neg (by rcases stored with is | is <;> rw [is] <;> decide),
    if_neg (by rcases stored with is | is <;> simp [is, writable]), if_neg
      (Int64.not_lt.mpr nonneg)]
  split
  · rfl
  · split
    · rfl
    · split
      next disk => rw [onFile_congr file (MountedFile.put_disk heap _ buf disk).symm]
      next memory => rw [onFile_congr file (MountedFile.put_memory heap _ buf memory).symm]

end Writable

/-- What a write does to the descriptor: on success it moves on by what was written. -/
def Moves (fs fs' : Files) (fd : Int32) (answer : Except Errno UInt64) (buf : Bytes) : Prop :=
  ∀ n, answer = .ok n →
    n.toNat = buf.length ∧ fs'.handles = (fs.onHandle fd fun h =>
      { h with pos := h.pos + n }).handles

/-- On a file that can be written, in memory or on the host's disk, a write is a write at the
descriptor's position, except when nothing is written past the end. -/
theorem writeBuffer_eq_pwriteBuffer (opened : fs.opened fd = some (h, f))
    (stored : f.kind = .regular ∨ f.kind = .hostOut) (writable : f.writable = true)
    (whole : f.kind = .regular → f.len.toNat ≤ f.data.length) {buf : Bytes}
    (size : buf.length < 2 ^ 64) {offset : Int64} (nonneg : 0 ≤ offset)
    (here : offset.toUInt64 = h.pos) :
    ((fs.writeBuffer heap fd buf).1 = (fs.pwriteBuffer heap fd buf offset).1 ∧
        (fs.writeBuffer heap fd buf).2.files = (fs.pwriteBuffer heap fd buf offset).2.files ∧
        fs.Moves (fs.writeBuffer heap fd buf).2 fd (fs.writeBuffer heap fd buf).1 buf) ↔
      ¬ (buf = [] ∧ f.len < h.pos) := by
  obtain ⟨place, file⟩ := opened_parts opened
  rw [writeBuffer_eq opened stored writable, pwriteBuffer_eq opened stored writable buf nonneg,
    here]
  have length : (UInt64.ofNat buf.length).toNat = buf.length := by
    rw [UInt64.toNat_ofNat', Nat.mod_eq_of_lt size]
  have moves : fs.Moves ((fs.onFile h.file (.put heap h.pos buf)).onHandle fd fun h =>
      { h with pos := h.pos + UInt64.ofNat buf.length }) fd
      (.ok (UInt64.ofNat buf.length)) buf := by
    intro n ok
    cases ok
    exact ⟨length, rfl⟩
  by_cases empty : buf = []
  · subst empty
    have zero : UInt64.ofNat ([] : Bytes).length = 0 := rfl
    rw [zero, UInt64.add_zero, if_neg (UInt64.lt_irrefl _), if_pos rfl]
    by_cases past : f.len < h.pos
    · refine iff_of_false (fun same => ?_) fun fine => fine ⟨rfl, past⟩
      have changed : (fs.files.modify h.file (.put heap h.pos []))[h.file]? = fs.files[h.file]? :=
        congrArg (·[h.file]?) same.2.1
      rw [List.getElem?_modify_eq, file] at changed
      have len := congrArg MountedFile.len (Option.some.inj changed)
      rw [MountedFile.put_nil_len past] at len
      exact UInt64.lt_irrefl _ (len ▸ past)
    · have kept : (fs.files.modify h.file (.put heap h.pos [])) = fs.files :=
        modify_self file (MountedFile.put_nil whole stored (UInt64.not_lt.mp past))
      exact iff_of_true ⟨rfl, kept, moves⟩ fun both => past both.2
  · have some_ : UInt64.ofNat buf.length ≠ 0 := fun zero => by
      rw [zero] at length
      exact empty (List.length_eq_zero_iff.mp length.symm)
    refine iff_of_true ?_ fun both => empty both.1
    rw [if_neg some_]
    split
    · exact ⟨rfl, rfl, fun n ok => nomatch ok⟩
    · exact ⟨rfl, rfl, moves⟩

/-- One file that is written, open at position 5, with three bytes in it. -/
def behind : Files where
  files := [{ name := [0x61], kind := .regular, data := [1, 2, 3], len := 3, writable := true }]
  handles := [⟨0, 0, 5⟩]
  linuxAnswers := true

/-- A byte written two bytes past the end is written alike. -/
theorem writeBuffer_eq_pwriteBuffer_gap :
    (behind.writeBuffer (fun _ => 9) 0 [7]).2.files =
    (behind.pwriteBuffer (fun _ => 9) 0 [7] 5).2.files := by
  exact ((@writeBuffer_eq_pwriteBuffer behind (fun _ => 9) 0 _ _ rfl (.inl rfl) rfl (by decide) [7]
    (by decide) 5 (by decide) rfl).mpr (by decide)).2.1

/-- Nothing written there is a file of five bytes in one way, and of three in the other. -/
theorem writeBuffer_ne_pwriteBuffer : behind.opened 0 = some (⟨0, 0, 5⟩,
      { name := [0x61], kind := .regular, data := [1, 2, 3], len := 3, writable := true }) ∧
    ((behind.writeBuffer (fun _ => 9) 0 []).2.files.map fun f => (f.data, f.len)) =
      [([1, 2, 3, 0, 0], 5)] ∧
    ((behind.pwriteBuffer (fun _ => 9) 0 [] 5).2.files.map fun f => (f.data, f.len)) =
      [([1, 2, 3], 3)] := by
  decide

end Files

/-! ## The files without what is past them -/

/-- A regular file with its buffer cut to its length. -/
def MountedFile.cut (f : MountedFile) : MountedFile :=
  { f with data := if f.kind = .regular then f.data.take f.len.toNat else f.data }

theorem MountedFile.cut_regular {f : MountedFile} (regular : f.kind = .regular) :
    f.cut = { f with data := f.data.take f.len.toNat } := by
  unfold cut
  rw [if_pos regular]

theorem MountedFile.cut_other {f : MountedFile} (other : f.kind ≠ .regular) : f.cut = f := by
  unfold cut
  rw [if_neg other]

/-- No regular file is longer than its buffer, and what is read from the host's disk is not
written. -/
structure Files.Whole (fs : Files) : Prop where
  room : ∀ f ∈ fs.files, f.kind = .regular → f.len.toNat ≤ f.data.length
  reads : ∀ f ∈ fs.files, f.kind = .host → f.writable = false

namespace Files

def cut (fs : Files) : Files := { fs with files := fs.files.map .cut }

variable {fs : Files} {names : Int32 → Option Bytes}

theorem opened_cut (fs : Files) (fd : Int32) :
    fs.cut.opened fd = (fs.opened fd).map fun o => (o.1, o.2.cut) := by
  unfold opened
  rw [show fs.cut.handleByFd fd = fs.handleByFd fd from rfl]
  split
  · rfl
  next h _ =>
    show ((fs.files.map MountedFile.cut)[h.file]?).map _ = _
    rw [List.getElem?_map, Option.map_map, Option.map_map]
    rfl

theorem byName_cut (fs : Files) (name : Bytes) : fs.cut.byName name =
    (fs.byName name).map .cut := by
  show (fs.files.map MountedFile.cut).find? _ = _
  rw [List.find?_map]
  rfl

theorem fileIndex_cut (fs : Files) (name : Bytes) : fs.cut.fileIndex name = fs.fileIndex name := by
  show (fs.files.map MountedFile.cut).findIdx _ = _
  rw [List.findIdx_map]
  rfl

theorem onFile_cut {i : Nat} {f : MountedFile} {change change' : MountedFile → MountedFile}
    (here : fs.files[i]? = some f) (same : (change f).cut = change' f.cut) :
    (fs.onFile i change).cut = fs.cut.onFile i change' := by
  unfold onFile cut
  rw [map_modify_at here same]

theorem Whole.onFile {i : Nat} {f : MountedFile} {change : MountedFile → MountedFile}
    (whole : fs.Whole) (here : fs.files[i]? = some f)
    (room : (change f).kind = .regular → (change f).len.toNat ≤ (change f).data.length)
    (reads : (change f).kind = .host → (change f).writable = false) :
    (fs.onFile i change).Whole := by
  have each : ∀ g ∈ (fs.onFile i change).files, g = change f ∨ g ∈ fs.files := fun g member => by
    obtain ⟨j, at_⟩ := List.mem_iff_getElem?.mp member
    change (fs.files.modify i change)[j]? = some g at at_
    rw [List.getElem?_modify] at at_
    split at at_
    next same =>
      subst same
      rw [here] at at_
      exact .inl (Option.some.inj at_).symm
    · exact .inr (List.mem_iff_getElem?.mpr ⟨j, by simpa using at_⟩)
  refine ⟨fun g member => ?_, fun g member => ?_⟩
  · rcases each g member with rfl | old
    · exact room
    · exact whole.room g old
  · rcases each g member with rfl | old
    · exact reads
    · exact whole.reads g old

theorem Whole.of_files {fs' : Files} (whole : fs.Whole) (same : fs'.files = fs.files) :
    fs'.Whole := by
  refine ⟨fun f member => ?_, fun f member => ?_⟩
  · rw [same] at member
    exact whole.room f member
  · rw [same] at member
    exact whole.reads f member

/-- An operation on buffers that is one on files: it answers what that does, and leaves its files,
in buffers that hold them. -/
def Cuts {α : Type} (files buffers : α × Files) : Prop :=
  files = (buffers.1, buffers.2.cut) ∧ buffers.2.Whole

/-! ### Writing and truncating -/

section Put

variable {heap : Nat → UInt8} {f : MountedFile} {at_ : UInt64} {buf : Bytes}

theorem end_toNat (fits : at_.toNat + buf.length < 2 ^ 64) :
    (at_ + UInt64.ofNat buf.length).toNat = at_.toNat + buf.length := by
  rw [UInt64.toNat_add, UInt64.toNat_ofNat']
  omega

/-- The end of a file after a write. -/
theorem longer_eq (len : UInt64) (fits : at_.toNat + buf.length < 2 ^ 64) :
    (if len < at_ + UInt64.ofNat buf.length then at_ + UInt64.ofNat buf.length else len) =
      UInt64.ofNat (max len.toNat (at_.toNat + buf.length)) := by
  have end_ := end_toNat fits
  rw [← UInt64.toNat_inj, UInt64.toNat_ofNat_of_lt'
    (by have := len.toNat_lt; show _ < 2 ^ 64; omega)]
  split
  next longer =>
    have := UInt64.lt_iff_toNat_lt.mp longer
    omega
  next within =>
    have := UInt64.le_iff_toNat_le.mp (UInt64.not_lt.mp within)
    omega

theorem put_cut (stored : f.kind = .regular ∨ f.kind = .hostOut)
    (room : f.kind = .regular → f.len.toNat ≤ f.data.length)
    (fits : at_.toNat + buf.length < 2 ^ 64) :
    (f.put heap at_ buf).cut = f.cut.written at_.toNat buf := by
  rcases stored with regular | disk
  · have memory : f.kind ≠ .hostOut := by
      rw [regular]
      decide
    have data := MountedFile.store_cut heap (room regular) (end_toNat fits)
    have len : (f.store heap at_ (at_ + UInt64.ofNat buf.length) buf).len = _ :=
        longer_eq f.len fits
    have kind : (f.store heap at_ (at_ + UInt64.ofNat buf.length) buf).kind = .regular := regular
    rw [MountedFile.put_memory heap at_ buf memory, MountedFile.cut_regular kind, data, len,
      MountedFile.cut_regular regular, MountedFile.written]
    dsimp only
    rw [if_neg fun both => memory both.1]
    rfl
  · have other : f.kind ≠ .regular := by
      rw [disk]
      decide
    have kind : (f.hostWrite at_ buf).kind ≠ .regular := other
    rw [MountedFile.put_disk heap at_ buf disk, MountedFile.cut_other kind,
      MountedFile.cut_other other, MountedFile.written, MountedFile.hostWrite, longer_eq f.len fits]
    simp only [disk, true_and]

theorem put_sig (f : MountedFile) : (f.put heap at_ buf).sig = f.sig := by
  unfold MountedFile.put
  split
  · rfl
  · rfl

/-- A buffer with something put into it holds its file. -/
theorem put_room (is : f.kind = .regular) (room : f.len.toNat ≤ f.data.length)
    (fits : at_.toNat + buf.length < 2 ^ 64) :
    (f.put heap at_ buf).len.toNat ≤ (f.put heap at_ buf).data.length := by
  have memory : f.kind ≠ .hostOut := by
    rw [is]
    decide
  have ends := end_toNat fits
  rw [MountedFile.put_memory heap at_ buf memory, MountedFile.store_len heap ends,
    MountedFile.store_length heap ends]
  omega

/-- What is put into a buffer is written to the file. -/
theorem Whole.put (whole : fs.Whole) {i : Nat} (here : fs.files[i]? = some f)
    (stored : f.kind = .regular ∨ f.kind = .hostOut) (fits : at_.toNat + buf.length < 2 ^ 64) :
    (fs.onFile i (.put heap at_ buf)).cut = fs.cut.putBytes i at_ buf ∧
      (fs.onFile i (.put heap at_ buf)).Whole := by
  have member := List.mem_of_getElem? here
  have kind : (f.put heap at_ buf).kind = f.kind := congrArg (·.2.1) (put_sig f)
  have writable : (f.put heap at_ buf).writable = f.writable := congrArg (·.2.2) (put_sig f)
  refine ⟨onFile_cut here (put_cut stored (whole.room f member) fits), ?_⟩
  refine whole.onFile here (fun is => ?_) fun is => ?_
  · rw [kind] at is
    exact put_room is (whole.room f member is) fits
  · rw [kind] at is
    rw [writable]
    exact whole.reads f member is

end Put

/-- A file with bytes is written, or nothing of it is. -/
theorem Whole.written_or (whole : fs.Whole) {f : MountedFile} (member : f ∈ fs.files) :
    (f.kind = .regular ∨ f.kind = .hostOut) ∧ f.writable = true ∨ f.kind = .sysout ∨
      f.kind = .empty ∨ f.writable = false := by
  have reads := whole.reads f member
  cases kind : f.kind <;> cases writes : f.writable <;> simp_all

/-- A write to a buffer is a write to the file. -/
theorem Whole.writeBuffer (heap : Nat → UInt8) (whole : fs.Whole) (fd : Int32) {buf : Bytes}
    (size : buf.length < 2 ^ 64) : Cuts (fs.cut.write fd buf) (fs.writeBuffer heap fd buf) := by
  have length : (UInt64.ofNat buf.length).toNat = buf.length := UInt64.toNat_ofNat_of_lt' size
  cases search : fs.opened fd with
  | none =>
    unfold Files.write Files.writeBuffer
    rw [opened_cut, search]
    exact ⟨rfl, whole⟩
  | some o =>
    obtain ⟨h, f⟩ := o
    obtain ⟨-, here⟩ := opened_parts search
    have member := List.mem_of_getElem? here
    have cut_ : fs.cut.opened fd = some (h, f.cut) := by rw [opened_cut, search]; rfl
    rcases whole.written_or member with ⟨stored, writable⟩ | off
    · rw [writeBuffer_eq search stored writable]
      unfold Files.write
      rw [cut_]
      dsimp only
      rw [if_neg (by rcases stored with is | is <;> simp [MountedFile.cut, is]),
        if_neg (by rcases stored with is | is <;> simp [MountedFile.cut, is, writable])]
      split
      · exact ⟨rfl, whole⟩
      next fits =>
        have small := add_lt_of_not_wraps fits
        rw [length] at small
        obtain ⟨changed, after⟩ := @Whole.put fs heap f h.pos buf whole h.file here stored small
        rw [← changed]
        exact ⟨rfl, after.of_files rfl⟩
    · unfold Files.write Files.writeBuffer
      rw [cut_, search]
      dsimp only
      rw [show f.cut.kind = f.kind from rfl, show f.cut.writable = f.writable from rfl]
      split
      · exact ⟨rfl, whole.of_files rfl⟩
      next other =>
        have off : f.kind = .empty ∨ (!f.writable) = true := by simpa [other] using off
        rw [if_pos off, if_pos off]
        exact ⟨rfl, whole⟩

theorem Whole.pwriteBuffer (heap : Nat → UInt8) (whole : fs.Whole) (fd : Int32) {buf : Bytes}
    (size : buf.length < 2 ^ 64) (offset : Int64) :
    Cuts (fs.cut.pwrite fd buf offset) (fs.pwriteBuffer heap fd buf offset) := by
  have length : (UInt64.ofNat buf.length).toNat = buf.length := UInt64.toNat_ofNat_of_lt' size
  cases search : fs.opened fd with
  | none =>
    unfold Files.pwrite Files.pwriteBuffer
    rw [opened_cut, search]
    exact ⟨rfl, whole⟩
  | some o =>
    obtain ⟨h, f⟩ := o
    obtain ⟨-, here⟩ := opened_parts search
    have cut_ : fs.cut.opened fd = some (h, f.cut) := by rw [opened_cut, search]; rfl
    unfold Files.pwrite Files.pwriteBuffer
    rw [cut_, search]
    dsimp only
    rw [show f.cut.kind = f.kind from rfl, show f.cut.writable = f.writable from rfl]
    split_ifs with stream off negative none_ wraps disk
    · exact ⟨rfl, whole⟩
    · exact ⟨rfl, whole⟩
    · exact ⟨rfl, whole⟩
    · exact ⟨rfl, whole⟩
    · exact ⟨rfl, whole⟩
    all_goals
      have small := add_lt_of_not_wraps wraps
      rw [length] at small
      have stored : f.kind = .regular ∨ f.kind = .hostOut := by tauto
      obtain ⟨changed, after⟩ :=
        @Whole.put fs heap f offset.toUInt64 buf whole h.file here stored small
      rw [← changed]
    · have file : fs.onFile h.file (·.hostWrite offset.toUInt64 buf) = _ :=
        onFile_congr here (MountedFile.put_disk heap offset.toUInt64 buf disk).symm
      rw [file]
      exact ⟨rfl, after⟩
    · have file : fs.onFile h.file (·.store heap offset.toUInt64
          (offset.toUInt64 + UInt64.ofNat buf.length) buf) = _ :=
        onFile_congr here (MountedFile.put_memory heap offset.toUInt64 buf disk).symm
      rw [file]
      exact ⟨rfl, after⟩

theorem truncated_cut {i : Nat} {f : MountedFile} {change : MountedFile → MountedFile}
    {size : UInt64}
    (here : fs.files[i]? = some f)
    (same : (change f).cut = { f.cut with data := resize f.cut.data size.toNat, len := size }) :
    cut { fs.onFile i change with
      handles := fs.handles.map fun h =>
        if h.file = i ∧ size < h.pos then { h with pos := size } else h } =
          fs.cut.truncated i size := by
  have files := @onFile_cut fs i f change
    (fun f => { f with data := resize f.data size.toNat, len := size }) here same
  unfold truncated
  rw [← files]
  rfl

theorem Whole.truncateBuffer (heap : Nat → UInt8) (whole : fs.Whole) (name : Bytes) (size : Int64) :
    Cuts (fs.cut.truncateName name size) (fs.truncateBuffer heap name size) := by
  unfold truncateName Files.truncateBuffer
  rw [byName_cut]
  cases found : fs.byName name with
  | none => exact ⟨rfl, whole⟩
  | some f =>
    obtain ⟨here, named⟩ := byName_eq found
    have member := List.mem_of_getElem? here
    rw [Option.map_some]
    dsimp only
    rw [show f.cut.kind = f.kind from rfl, show f.cut.writable = f.writable from rfl, fileIndex_cut]
    split_ifs with disk off
    · have other : f.kind ≠ .regular := by
        rw [disk.1]
        decide
      have same : ({ f with data := resize f.data size.toUInt64.toNat, len := size.toUInt64 } :
          MountedFile).cut =
          { f.cut with data := resize f.cut.data size.toUInt64.toNat, len := size.toUInt64 } := by
        rw [MountedFile.cut_other other]
        exact MountedFile.cut_other other
      refine ⟨congrArg (Prod.mk _) (truncated_cut here same).symm, ?_⟩
      exact (whole.onFile here (fun is => absurd is other) (whole.reads f member)).of_files rfl
    · exact ⟨rfl, whole⟩
    · have regular : f.kind = .regular := by tauto
      have data := MountedFile.truncated_cut heap (whole.room f member regular) size.toUInt64
      have same : ({ f with
            data := clearGap (realloc f.data size.toUInt64.toNat heap) f.len size.toUInt64
            len := size.toUInt64 } : MountedFile).cut =
          { f.cut with data := resize f.cut.data size.toUInt64.toNat, len := size.toUInt64 } := by
        rw [MountedFile.cut_regular regular, data, MountedFile.cut_regular]
        · show ({ f with data := List.take _ _, len := _ } : MountedFile) = _
          rw [List.take_of_length_le (by rw [resize_length])]
        · exact regular
      refine ⟨congrArg (Prod.mk _) (truncated_cut here same).symm, ?_⟩
      refine (whole.onFile here (fun _ => ?_) (whole.reads f member)).of_files rfl
      show size.toUInt64.toNat ≤ (clearGap _ _ _).length
      rw [clearGap_length (by rw [realloc_length]), realloc_length]

theorem Whole.truncateFdBuffer (heap : Nat → UInt8) (whole : fs.Whole) (fd : Int32) (size : Int64) :
    Cuts (fs.cut.truncateFd fd size) (fs.truncateFdBuffer heap fd size) := by
  unfold truncateFd Files.truncateFdBuffer
  rw [opened_cut]
  cases fs.opened fd with
  | none => exact ⟨rfl, whole⟩
  | some o => exact whole.truncateBuffer heap o.2.name size

end Files

end MiniBox

