import MiniBox.Host.PlainCalls

/-!
# Runs of calls on files

The calls on buffers, by cutting each buffer to its file: `FileCall.does` for one call, and
`FileCall.runs_plain` for any sequence of them from the mounts on.
-/

namespace MiniBox

open Lib Files

namespace Files

/-! ## The calls on buffers -/

section Cut

variable {fs : Files}

theorem cut_exact (whole : fs.Whole) : fs.cut.Exact := fun f member is => by
  obtain ⟨g, among, rfl⟩ := List.mem_map.mp member
  have is : g.kind = .regular := is
  have room := whole.room g among is
  rw [MountedFile.cut_regular is, List.length_take]
  exact Nat.min_eq_left room

theorem hasBytes_cut (f : MountedFile) : f.cut.hasBytes = f.hasBytes := rfl

theorem lowestFree_cut (fs : Files) : ∀ (fuel : Nat) (fd : Int32),
    fs.cut.lowestFree fuel fd = fs.lowestFree fuel fd
  | 0, _ => rfl
  | fuel + 1, fd => by
    rw [lowestFree, lowestFree, lowestFree_cut fs fuel]
    rfl

theorem handleAdd_cut (fs : Files) (i : Nat) (pos : UInt64) :
    fs.cut.handleAdd i pos = ((fs.handleAdd i pos).1, (fs.handleAdd i pos).2.cut) := by
  unfold handleAdd
  rw [lowestFree_cut]
  rfl

section Same

variable (whole : fs.Whole)
include whole

theorem Whole.open_ (name : Bytes) (flags : UInt32) :
    Cuts (fs.cut.open_ name flags) (fs.open_ name flags) := by
  unfold Files.open_
  rw [byName_cut, fileIndex_cut]
  cases fs.byName name with
  | none => exact ⟨rfl, whole⟩
  | some f =>
    rw [Option.map_some]
    dsimp only
    rw [hasBytes_cut, show f.cut.kind = f.kind from rfl, show f.cut.writable = f.writable from rfl,
      show fs.cut.fileIsOpen = fs.fileIsOpen from rfl]
    split
    · exact ⟨rfl, whole⟩
    · split
      · exact ⟨rfl, whole⟩
      · split
        · exact ⟨rfl, whole⟩
        · rw [handleAdd_cut]
          exact ⟨rfl, whole.of_files rfl⟩

theorem Whole.dup (fd : Int32) : Cuts (fs.cut.dup fd) (fs.dup fd) := by
  unfold Files.dup
  rw [opened_cut]
  cases fs.opened fd with
  | none => exact ⟨rfl, whole⟩
  | some o =>
    obtain ⟨h, f⟩ := o
    rw [Option.map_some]
    dsimp only
    rw [hasBytes_cut, show f.cut.writable = f.writable from rfl]
    split
    · exact ⟨rfl, whole⟩
    · rw [handleAdd_cut]
      exact ⟨rfl, whole.of_files rfl⟩

theorem Whole.close (fd : Int32) : Cuts (fs.cut.close fd) (fs.close fd) := by
  unfold Files.close
  rw [show fs.cut.handleByFd fd = fs.handleByFd fd from rfl, show fs.cut.handles = fs.handles from
    rfl,
    show fs.cut.handleIndex fd = fs.handleIndex fd from rfl]
  split
  · exact ⟨rfl, whole.of_files rfl⟩
  · exact ⟨rfl, whole⟩

theorem Whole.seek (fd : Int32) (offset : Int64) (whence : Option Whence) :
    Cuts (fs.cut.seek fd offset whence) (fs.seek fd offset whence) := by
  unfold Files.seek
  rw [opened_cut]
  cases fs.opened fd with
  | none => exact ⟨rfl, whole⟩
  | some o =>
    obtain ⟨h, f⟩ := o
    rw [Option.map_some]
    dsimp only
    rw [hasBytes_cut, show fs.cut.linuxAnswers = fs.linuxAnswers from rfl,
      show f.cut.len = f.len from rfl]
    split
    · exact ⟨rfl, whole⟩
    · cases whence with
      | none => exact ⟨rfl, whole⟩
      | some whence =>
        dsimp only
        split_ifs
        · exact ⟨rfl, whole⟩
        · exact ⟨rfl, whole.of_files rfl⟩

theorem Whole.read (fd : Int32) (n : UInt64) : Cuts (fs.cut.read fd n) (fs.read fd n) := by
  unfold Files.read
  rw [opened_cut]
  cases opened : fs.opened fd with
  | none => exact ⟨rfl, whole⟩
  | some o =>
    obtain ⟨h, f⟩ := o
    obtain ⟨-, here⟩ := opened_parts opened
    have got : (f.cut.data.drop h.pos.toNat).take (min n (left h f)).toNat =
        (f.data.drop h.pos.toNat).take (min n (left h f)).toNat := by
      by_cases is : f.kind = .regular
      · have room := whole.room f (List.mem_of_getElem? here) is
        rw [MountedFile.cut_regular is, List.drop_take, List.take_take, min_toNat, left_toNat,
          Nat.min_eq_left (Nat.min_le_right ..)]
      · rw [MountedFile.cut_other is]
    rw [Option.map_some]
    dsimp only
    rw [show f.cut.kind = f.kind from rfl, show left h f.cut = left h f from rfl, got]
    split
    · exact ⟨rfl, whole⟩
    · split
      · exact ⟨rfl, whole⟩
      · exact ⟨rfl, whole.of_files rfl⟩

theorem Whole.pread (fd : Int32) (n : UInt64) (offset : Int64) :
    Cuts (fs.cut.pread fd n offset) (fs.pread fd n offset) := by
  unfold Files.pread
  obtain ⟨cut, there⟩ := whole.seek fd 0 (some .cur)
  rw [cut]
  cases first : fs.seek fd 0 (some .cur) with
  | mk answer fs₁ =>
    rw [first] at there
    cases answer with
    | error e => exact ⟨rfl, there⟩
    | ok pos =>
      dsimp only
      obtain ⟨cut, there⟩ := there.seek fd offset (some .set)
      rw [cut]
      cases second : fs₁.seek fd offset (some .set) with
      | mk answer fs₂ =>
        rw [second] at there
        cases answer with
        | error e => exact ⟨rfl, there⟩
        | ok _ =>
          obtain ⟨cut, after⟩ := there.read fd n
          obtain ⟨cut', back⟩ := after.seek fd pos (some .set)
          dsimp only
          rw [cut]
          exact ⟨congrArg (Prod.mk _) (congrArg Prod.snd cut'), back⟩

end Same

theorem Kept.pread {names : Int32 → Option Bytes} (kept : fs.Kept names) (fd : Int32) (n : UInt64)
    (offset : Int64) : (fs.pread fd n offset).2.Kept names := by
  unfold Files.pread
  have first := kept.seek fd 0 (some .cur)
  cases answer : fs.seek fd 0 (some .cur) with
  | mk answer_ fs₁ =>
    rw [answer] at first
    cases answer_ with
    | error e => exact first
    | ok pos =>
      dsimp only
      have second := first.seek fd offset (some .set)
      cases answer' : fs₁.seek fd offset (some .set) with
      | mk answer_ fs₂ =>
        rw [answer'] at second
        cases answer_ with
        | error e => exact second
        | ok there => exact (second.read fd n).seek fd pos (some .set)

end Cut

end Files

/-! ## Runs -/

namespace FileCall

/-- A call on the table, with what the heap has where a buffer grows. -/
def run (heap : Nat → UInt8) (fs : Files) : FileCall → FileReply × Files
  | .open_ name flags => (.of .descriptor (fs.open_ name flags).1, (fs.open_ name flags).2)
  | .dup fd => (.of .descriptor (fs.dup fd).1, (fs.dup fd).2)
  | .close fd => (.of (fun _ => .done) (fs.close fd).1, (fs.close fd).2)
  | .seek fd offset whence =>
    (.of (fun pos => .position pos.toInt) (fs.seek fd offset whence).1,
      (fs.seek fd offset whence).2)
  | .read fd n => (.of .bytes (fs.read fd n).1, (fs.read fd n).2)
  | .pread fd n offset => (.of .bytes (fs.pread fd n offset).1, (fs.pread fd n offset).2)
  | .write fd buf =>
    (.of (fun n => .count n.toNat) (fs.writeBuffer heap fd buf).1, (fs.writeBuffer heap fd buf).2)
  | .pwrite fd buf offset =>
    (.of (fun n => .count n.toNat) (fs.pwriteBuffer heap fd buf offset).1,
      (fs.pwriteBuffer heap fd buf offset).2)
  | .truncate name size =>
    (.of (fun _ => .done) (fs.truncateBuffer heap name size).1,
      (fs.truncateBuffer heap name size).2)
  | .ftruncate fd size =>
    (.of (fun _ => .done) (fs.truncateFdBuffer heap fd size).1,
      (fs.truncateFdBuffer heap fd size).2)

/-- The file a call is on. -/
def file (fs : Files) : FileCall → Option MountedFile
  | .open_ name _ | .truncate name _ => fs.byName name
  | .dup fd | .close fd | .seek fd _ _ | .read fd _ | .pread fd _ _ | .write fd _ | .pwrite fd _ _
  | .ftruncate fd _ => (fs.opened fd).map Prod.snd

/-- The call is on a regular mount. -/
def OnRegular (fs : Files) (call : FileCall) : Prop := ∀ f ∈ call.file fs, f.kind = .regular

/-- There is a descriptor left for what is opened, something is written, and a buffer that long
can be allocated. -/
def Fits (fs : Files) : FileCall → Prop
  | .open_ _ _ => fs.handles.length < 2 ^ 31
  | .dup _ => fs.handles.length < 2 ^ 31
  | .write fd buf => buf ≠ [] ∧ buf.length < 2 ^ 64 ∧
      ∀ o ∈ fs.opened fd, o.1.pos.toNat + buf.length < 2 ^ 63
  | .pwrite _ buf offset => buf ≠ [] ∧ offset.toInt + buf.length < 2 ^ 63
  | _ => True

end FileCall

/-- What is known of a table in a run. -/
structure Files.Ready (fs : Files) : Prop where
  whole : fs.Whole
  kept : ∃ names, fs.cut.Kept names
  small : fs.cut.plain.Small

section Small

variable {p p' : Plain}

theorem Plain.Small.move (small : p.Small) {fd : Int32} {to_ : Option Cursor}
    (near : ∀ c, to_ = some c → c.pos < 2 ^ 63) : (p.move fd to_).Small := by
  refine ⟨small.len, fun k c at_ => ?_⟩
  by_cases same : k = fd
  · rw [same, move_self] at at_
    exact near c at_
  · rw [move_other _ same] at at_
    exact small.pos k c at_

theorem Plain.Small.change (small : p.Small) {i : Nat} {file : ByteFile}
    (short : file.len < 2 ^ 63) :
    (p.change i file).Small := by
  refine ⟨fun j => ?_, small.pos⟩
  by_cases same : j = i
  · rw [same, change_self]
    exact short
  · rw [change_other _ same]
    exact small.len j

theorem Plain.Small.truncate (small : p.Small) {i size : Nat} (short : size < 2 ^ 63) :
    (p.truncate i size).Small := by
  have changed := @Small.change p small i ((p.file i).truncate size) short
  refine ⟨changed.len, fun k c at_ => ?_⟩
  obtain ⟨d, before, rfl⟩ := Option.map_eq_some_iff.mp at_
  have near := small.pos k d before
  split
  · exact Nat.lt_of_le_of_lt (Nat.min_le_left ..) near
  · exact near

/-- The bound a call needs of where it writes. -/
def Plain.Room (p : Plain) : FileCall → Prop
  | .write fd buf => ∀ c, p.cursor fd = some c → c.pos + buf.length < 2 ^ 63
  | .pwrite _ buf offset => offset.toInt + buf.length < 2 ^ 63
  | _ => True

theorem Plain.Small.does (small : p.Small) {call : FileCall} {reply : FileReply}
    (does : Does p call reply p') (room : p.Room call) : p'.Small := by
  cases does with
  | open_ named opens shut =>
    refine small.move fun c to_ => ?_
    cases to_
    exact Nat.two_pow_pos 63
  | dup at_ reads shut =>
    refine small.move fun c to_ => ?_
    cases to_
    exact small.pos _ _ at_
  | close at_ => exact small.move fun c to_ => nomatch to_
  | seek at_ reaches =>
    refine small.move fun c to_ => ?_
    cases to_
    obtain ⟨least, most, -⟩ := reaches
    show Int.toNat _ < 2 ^ 63
    omega
  | @read fd n c at_ =>
    refine small.move fun d to_ => ?_
    cases to_
    have near := small.pos _ _ at_
    have short := small.len c.file
    show c.pos + ((p.file c.file).read c.pos n.toNat).length < 2 ^ 63
    rw [ByteFile.read_length]
    omega
  | pread at_ reaches => exact small
  | @write fd buf c at_ writes =>
    have room := room c at_
    have short := small.len c.file
    have written : ((p.file c.file).write c.pos buf).len < 2 ^ 63 := by
      show max (p.file c.file).len (c.pos + buf.length) < 2 ^ 63
      omega
    refine (small.change written).move fun d to_ => ?_
    cases to_
    exact room
  | @pwrite fd buf offset c at_ writes nonneg =>
    have room : offset.toInt + buf.length < 2 ^ 63 := room
    have short := small.len c.file
    refine small.change ?_
    show max (p.file c.file).len (offset.toInt.toNat + buf.length) < 2 ^ 63
    omega
  | @truncate i name size named writes nonneg =>
    have most := size.toInt_lt
    exact small.truncate (by omega)
  | @ftruncate fd size c at_ writes nonneg =>
    have most := size.toInt_lt
    exact small.truncate (by omega)
  | refused e why => exact small

end Small

/-! ### One call -/

section Call

variable {fs : Files} {call : FileCall}

/-- The table is cut, and so is the file a call is on. -/
theorem Files.regular_cut {fd : Int32} (on : ∀ f ∈ (fs.opened fd).map Prod.snd, f.kind = .regular) :
    ∀ h f, fs.cut.opened fd = some (h, f) → f.kind = .regular := fun h f opened => by
  rw [opened_cut] at opened
  obtain ⟨o, found, same⟩ := Option.map_eq_some_iff.mp opened
  cases same
  exact on o.2 (Option.mem_map_of_mem Prod.snd found)

theorem Files.named_cut {name : Bytes} (on : ∀ f ∈ fs.byName name, f.kind = .regular) :
    ∀ f, fs.cut.byName name = some f → f.kind = .regular := fun f found => by
  rw [byName_cut] at found
  obtain ⟨g, here, same⟩ := Option.map_eq_some_iff.mp found
  cases same
  exact on g here

/-- A call that is one on the files of the table, once that is known. -/
theorem Files.Ready.next {α : Type} {ok : α → FileReply} {buffers files : Except Errno α × Files}
    (ready : fs.Ready) (cuts : Cuts files buffers) (room : fs.cut.plain.Room call)
    (does : Plain.Does fs.cut.plain call (.of ok files.1) files.2.plain)
    (kept : ∃ names, files.2.Kept names) :
    Plain.Does fs.cut.plain call (.of ok buffers.1) buffers.2.cut.plain ∧ buffers.2.Ready := by
  obtain ⟨rfl, whole⟩ := cuts
  exact ⟨does, whole, kept, ready.small.does does room⟩

/-- A call on a regular mount does what it does on byte sequences. -/
theorem FileCall.does (heap : Nat → UInt8) (ready : fs.Ready) (on : call.OnRegular fs)
    (fits : call.Fits fs) :
    Plain.Does fs.cut.plain call (call.run heap fs).1 (call.run heap fs).2.cut.plain ∧
      (call.run heap fs).2.Ready := by
  have ⟨whole, ⟨names, kept⟩, small⟩ := ready
  have exact_ := cut_exact whole
  cases call with
  | open_ name flags =>
    exact ready.next (whole.open_ name flags) trivial (kept.does_open fits flags (named_cut on))
      ⟨_, @FileOp.kept _ _ (.open_ name flags) kept trivial fits⟩
  | dup fd =>
    exact ready.next (whole.dup fd) trivial (@does_dup fs.cut fits fd (regular_cut on))
      ⟨_, @FileOp.kept _ _ (.dup fd) kept trivial fits⟩
  | close fd =>
    exact ready.next (whole.close fd) trivial (kept.does_close fd (regular_cut on))
      ⟨_, @FileOp.kept _ _ (.close fd) kept trivial trivial⟩
  | seek fd offset whence =>
    exact ready.next (whole.seek fd offset whence) trivial
      (kept.does_seek exact_ small fd offset whence (regular_cut on))
      ⟨_, kept.seek fd offset whence⟩
  | read fd n =>
    exact ready.next (whole.read fd n) trivial
      (kept.sound.does_read exact_ fd n (regular_cut on)) ⟨_, kept.read fd n⟩
  | pread fd n offset =>
    exact ready.next (whole.pread fd n offset) trivial
      (kept.does_pread exact_ small fd n offset (regular_cut on)) ⟨_, kept.pread fd n offset⟩
  | write fd buf =>
    obtain ⟨-, size, room⟩ := fits
    have room : fs.cut.plain.Room (.write fd buf) := fun c at_ => by
      obtain ⟨h, f, opened, -, rfl⟩ := of_plain_cursor at_
      rw [opened_cut] at opened
      obtain ⟨o, found, same⟩ := Option.map_eq_some_iff.mp opened
      cases same
      exact room o found
    exact ready.next (whole.writeBuffer heap fd size) room
      (kept.does_write fd (regular_cut on) room) ⟨_, kept.write fd size⟩
  | pwrite fd buf offset =>
    obtain ⟨some_, room⟩ := fits
    have size : buf.length < 2 ^ 64 := by
      have := offset.le_toInt
      omega
    exact ready.next (whole.pwriteBuffer heap fd size offset) room
      (does_pwrite fd some_ (regular_cut on) room) ⟨_, kept.pwrite fd offset size⟩
  | truncate name size =>
    exact ready.next (whole.truncateBuffer heap name size) trivial
      (kept.sound.does_truncate size (named_cut on)) ⟨_, kept.truncateName name size⟩
  | ftruncate fd size =>
    exact ready.next (whole.truncateFdBuffer heap fd size) trivial
      (kept.sound.does_ftruncate fd size (regular_cut on)) ⟨_, kept.truncateFd fd size⟩

end Call

/-! ### Any sequence of calls -/

/-- A sequence of calls on byte sequences, with their replies. -/
inductive Plain.Run : Plain → List FileCall → List FileReply → Plain → Prop where
  | nil (p : Plain) : Run p [] [] p
  | cons {p q r : Plain} {call : FileCall} {reply : FileReply} {calls : List FileCall}
      {replies : List FileReply} : Does p call reply q → Run q calls replies r →
      Run p (call :: calls) (reply :: replies) r

/-- A sequence of calls on the table, each with the heap it finds. -/
def FileCall.runs : Files → List (FileCall × (Nat → UInt8)) → List FileReply × Files
  | fs, [] => ([], fs)
  | fs, (call, heap) :: rest =>
    ((call.run heap fs).1 :: (runs (call.run heap fs).2 rest).1, (runs (call.run heap fs).2 rest).2)

/-- Each call is on a regular mount, and fits when it is made. -/
def FileCall.Allowed : Files → List (FileCall × (Nat → UInt8)) → Prop
  | _, [] => True
  | fs, (call, heap) :: rest =>
    call.OnRegular fs ∧ call.Fits fs ∧ Allowed (call.run heap fs).2 rest

/-- A table with these files mounted: a name, the bytes, and whether they can be written. -/
def Files.mounted (linuxAnswers : Bool) (mounts : List (Bytes × Bytes × Bool)) : Files :=
  mounts.foldl (fun fs m => (fs.mount m.1 m.2.1 m.2.2).2) { new with linuxAnswers }

theorem FileCall.runs_ready : ∀ {calls : List (FileCall × (Nat → UInt8))} {fs : Files}, fs.Ready →
    Allowed fs calls →
    Plain.Run fs.cut.plain (calls.map Prod.fst) (runs fs calls).1 (runs fs calls).2.cut.plain
  | [], _, _, _ => .nil _
  | (_, heap) :: _, _, ready, ⟨on, fits, rest⟩ => by
    obtain ⟨does, after⟩ := does heap ready on fits
    exact .cons does (runs_ready after rest)

/-! ### From the mounts on -/

/-- A table of mounts, with nothing opened since. -/
structure Files.Fresh (fs : Files) : Prop where
  handles : fs.handles = new.handles
  whole : fs.Whole
  kept : ∃ names, fs.cut.Kept names
  short : ∀ f ∈ fs.files, f.kind = .regular → f.len.toNat < 2 ^ 63

section Mounts

variable {fs : Files}

theorem Files.Fresh.ready (fresh : fs.Fresh) : fs.Ready := by
  refine ⟨fresh.whole, fresh.kept, fun i => ?_, fun fd c at_ => ?_⟩
  · cases found : fs.cut.regular i with
    | none =>
      show (((fs.cut.regular i).map fun f => ByteFile.of f.data).getD ByteFile.empty).len < 2 ^ 63
      rw [found]
      exact Nat.two_pow_pos 63
    | some f =>
      obtain ⟨here, is⟩ := regular_eq.mp found
      rw [plain_len (cut_exact fresh.whole) here is]
      obtain ⟨g, member, rfl⟩ := List.mem_map.mp (List.mem_of_getElem? here)
      exact fresh.short g member is
  · obtain ⟨h, f, opened, -, rfl⟩ := of_plain_cursor at_
    have start : ∀ h ∈ new.handles, h.pos.toNat < 2 ^ 63 := by decide
    have member := List.mem_of_getElem? (opened_parts opened).1
    rw [show fs.cut.handles = new.handles from fresh.handles] at member
    exact start h member

theorem Files.Fresh.new (linuxAnswers : Bool) : Files.Fresh { Files.new with linuxAnswers } := by
  have streams : ∀ f ∈ Files.new.files, f.kind ≠ .regular ∧ f.kind ≠ .host := by decide
  have cut : ({ Files.new with linuxAnswers } : Files).cut = { Files.new with linuxAnswers } := rfl
  refine ⟨rfl, ⟨fun f member is => ?_, fun f member is => ?_⟩, ⟨Files.streams, ?_⟩,
    fun f member is => ?_⟩
  · exact absurd is (streams f member).1
  · exact absurd is (streams f member).2
  · rw [cut]
    exact Files.Kept.new linuxAnswers
  · exact absurd is (streams f member).1

theorem Files.Fresh.mount (fresh : fs.Fresh) {name data : Bytes} (text : 0 ∉ name)
    (size : data.length < 2 ^ 63) (writable : Bool) : (fs.mount name data writable).2.Fresh := by
  obtain ⟨handles, whole, ⟨names, kept⟩, short⟩ := fresh
  have length : (UInt64.ofNat data.length).toNat = data.length :=
    UInt64.toNat_ofNat_of_lt' (show data.length < 2 ^ 64 by omega)
  have each : ∀ f ∈ fs.files ++ [⟨name, .regular, data, UInt64.ofNat data.length, writable⟩],
      f ∈ fs.files ∨ f = ⟨name, .regular, data, UInt64.ofNat data.length, writable⟩ :=
      fun f member => by
    simpa using member
  unfold Files.mount
  split
  · exact ⟨handles, whole, ⟨names, kept⟩, short⟩
  next new =>
    have new : ¬ (fs.cut.byName name).isSome := by
      rw [byName_cut, Option.isSome_map]
      exact new
    have after := @Kept.mounted _ _ kept
      (MountedFile.cut ⟨name, .regular, data, UInt64.ofNat data.length, writable⟩) new text
    refine ⟨handles, ⟨fun f member is => ?_, fun f member is => ?_⟩, ⟨names, ?_⟩, fun f member is =>
      ?_⟩
    · rcases each f member with old | rfl
      · exact whole.room f old is
      · exact Nat.le_of_eq length
    · rcases each f member with old | rfl
      · exact whole.reads f old is
      · cases is
    · unfold Files.cut
      rw [List.map_append]
      exact after
    · rcases each f member with old | rfl
      · exact short f old is
      · show (UInt64.ofNat data.length).toNat < 2 ^ 63
        rw [length]
        exact size

theorem Files.Fresh.mounted (linuxAnswers : Bool) {mounts : List (Bytes × Bytes × Bool)}
    (valid : ∀ m ∈ mounts, 0 ∉ m.1 ∧ m.2.1.length < 2 ^ 63) :
    (mounted linuxAnswers mounts).Fresh := by
  suffices all : ∀ (mounts : List (Bytes × Bytes × Bool)) (fs : Files), fs.Fresh →
      (∀ m ∈ mounts, 0 ∉ m.1 ∧ m.2.1.length < 2 ^ 63) →
      (mounts.foldl (fun fs m => (fs.mount m.1 m.2.1 m.2.2).2) fs).Fresh from
    all mounts _ (.new linuxAnswers) valid
  intro mounts
  induction mounts with
  | nil => exact fun fs fresh _ => fresh
  | cons m rest induction =>
    intro fs fresh valid
    obtain ⟨text, size⟩ := valid m (.head _)
    exact induction _ (fresh.mount text size m.2.2) fun m' later => valid m' (.tail _ later)

end Mounts

/-- Any sequence of calls on regular mounts is one on byte sequences, with the same replies. -/
theorem FileCall.runs_plain (linuxAnswers : Bool) {mounts : List (Bytes × Bytes × Bool)}
    (valid : ∀ m ∈ mounts, 0 ∉ m.1 ∧ m.2.1.length < 2 ^ 63)
    {calls : List (FileCall × (Nat → UInt8))}
    (allowed : Allowed (Files.mounted linuxAnswers mounts) calls) :
    Plain.Run (Files.mounted linuxAnswers mounts).cut.plain (calls.map Prod.fst)
      (runs (Files.mounted linuxAnswers mounts) calls).1
      (runs (Files.mounted linuxAnswers mounts) calls).2.cut.plain :=
  runs_ready (Files.Fresh.mounted linuxAnswers valid).ready allowed

/-- A byte is written two bytes past three that are mounted; the file is cut to four bytes, made
longer again and read. -/
def FileCall.gap : List (FileCall × (Nat → UInt8)) :=
  [(.open_ [0x61] 2, fun _ => 9), (.pwrite 3 [7] 5, fun _ => 9), (.ftruncate 3 4, fun _ => 9),
    (.ftruncate 3 7, fun _ => 9), (.read 3 9, fun _ => 9)]

theorem FileCall.gap_allowed : Allowed (Files.mounted true [([0x61], [1, 2, 3], true)]) gap := by
  unfold Allowed OnRegular
  refine ⟨by decide, show _ < _ by decide, ?_⟩
  unfold Allowed OnRegular
  refine ⟨by decide, show _ ∧ _ by decide, ?_⟩
  unfold Allowed OnRegular
  refine ⟨by decide, trivial, ?_⟩
  unfold Allowed OnRegular
  refine ⟨by decide, trivial, ?_⟩
  unfold Allowed OnRegular
  exact ⟨by decide, trivial, trivial⟩

/-- What is read is what was left, and zeros. -/
theorem FileCall.runs_plain_gap : ∃ p, Plain.Run
    (Files.mounted true [([0x61], [1, 2, 3], true)]).cut.plain
    [.open_ [0x61] 2, .pwrite 3 [7] 5, .ftruncate 3 4, .ftruncate 3 7, .read 3 9]
    [.descriptor 3, .count 1, .done, .done, .bytes [1, 2, 3, 0, 0, 0, 0]] p := by
  have valid : ∀ m ∈ [(([0x61] : Bytes), ([1, 2, 3] : Bytes), true)], 0 ∉ m.1 ∧ m.2.1.length <
      2 ^ 63 := by
    decide
  have replies : (runs (Files.mounted true [([0x61], [1, 2, 3], true)]) gap).1 =
      [.descriptor 3, .count 1, .done, .done, .bytes [1, 2, 3, 0, 0, 0, 0]] := by decide
  exact ⟨_, replies ▸ runs_plain true valid gap_allowed⟩

end MiniBox
