import MiniBox.Host.Buffers
import MiniBox.Host.FileRuns
import MiniBox.Lib.ByteFile

/-!
# Files are byte sequences

What the regular mounts are for: each file is a sequence of bytes, each descriptor a file and a
position in it.  `Plain.Does` says what a call does there, with no buffers, no capacities and no
words.  `FileCall.does` is that every call on the table does what it does there, and
`FileCall.runs_plain` that every sequence of calls does.

A position is a signed number of 64 bits for a seek, and a buffer no longer than that can be
allocated.
-/

namespace MiniBox

open Lib Files

/-! ## The machine of byte sequences -/

/-- A descriptor: which file, and where in it. -/
structure Plain.Cursor where
  file : Nat
  pos : Nat
  deriving DecidableEq

/-- The regular files by their place in the table. -/
@[ext]
structure Plain where
  name : Nat → Option Bytes
  writable : Nat → Bool
  file : Nat → ByteFile
  cursor : Int32 → Option Plain.Cursor
  /-- whether a seek may go past the end -/
  past : Bool

inductive FileCall where
  | open_ (name : Bytes) (flags : UInt32)
  | dup (fd : Int32)
  | close (fd : Int32)
  | seek (fd : Int32) (offset : Int64) (whence : Option Whence)
  | read (fd : Int32) (n : UInt64)
  | pread (fd : Int32) (n : UInt64) (offset : Int64)
  | write (fd : Int32) (buf : Bytes)
  | pwrite (fd : Int32) (buf : Bytes) (offset : Int64)
  | truncate (name : Bytes) (size : Int64)
  | ftruncate (fd : Int32) (size : Int64)

inductive FileReply where
  | descriptor (fd : Int32)
  | position (pos : Int)
  | bytes (got : Bytes)
  | count (n : Nat)
  | done
  | refused (e : Errno)
  deriving DecidableEq

namespace Plain

variable (p : Plain)

/-- Descriptor `fd` at another place, or closed. -/
def move (fd : Int32) (to_ : Option Cursor) : Plain :=
  { p with cursor := Function.update p.cursor fd to_ }

def change (i : Nat) (file : ByteFile) : Plain := { p with file := Function.update p.file i file }

theorem move_self (fd : Int32) (to_ : Option Cursor) : (p.move fd to_).cursor fd = to_ :=
  Function.update_self (β := fun _ => Option Cursor) ..

theorem move_other {fd k : Int32} (other : k ≠ fd) (to_ : Option Cursor) :
    (p.move fd to_).cursor k = p.cursor k :=
  Function.update_of_ne (β := fun _ => Option Cursor) other ..

theorem change_self (i : Nat) (file : ByteFile) : (p.change i file).file i = file :=
  Function.update_self (β := fun _ => ByteFile) ..

theorem change_other {i j : Nat} (other : j ≠ i) (file : ByteFile) :
    (p.change i file).file j = p.file j :=
  Function.update_of_ne (β := fun _ => ByteFile) other ..

/-- A file of a new length, and the positions past its end at it. -/
def truncate (i : Nat) (size : Nat) : Plain :=
  { p.change i ((p.file i).truncate size) with
    cursor := fun fd => (p.cursor fd).map fun c =>
      if c.file = i then { c with pos := min c.pos size } else c }

/-- Whether file `i` may be opened with these flags: one that can be written is open once, and
only such a one is opened to be written. -/
def Opens (i : Nat) (flags : UInt32) : Prop :=
  (p.writable i = true → ∀ fd c, p.cursor fd = some c → c.file ≠ i) ∧
    ∃ reads writes, accessMode flags = some (reads, writes) ∧ (writes = true → p.writable i = true)

/-- Where a seek goes. -/
def target (c : Cursor) (offset : Int) : Whence → Int
  | .set => offset
  | .cur => c.pos + offset
  | .end_ => (p.file c.file).len + offset

/-- Whether it may go there. -/
def Reaches (c : Cursor) (to_ : Int) : Prop :=
  0 ≤ to_ ∧ to_ < 2 ^ 63 ∧ (p.past = false → to_ ≤ (p.file c.file).len)

/-- When a call may be refused. -/
def Refuses : FileCall → Prop
  | .open_ name flags => ∀ i, p.name i = some name → ¬ p.Opens i flags
  | .dup fd => ∀ c, p.cursor fd = some c → p.writable c.file = true
  | .close fd => p.cursor fd = none
  | .seek fd offset whence => ∀ c, p.cursor fd = some c → ∀ w, whence = some w →
      ¬ p.Reaches c (p.target c offset.toInt w)
  | .read fd _ => p.cursor fd = none
  | .pread fd _ offset => ∀ c, p.cursor fd = some c → ¬ p.Reaches c offset.toInt
  | .write fd _ => ∀ c, p.cursor fd = some c → p.writable c.file = false
  | .pwrite fd _ offset => ∀ c, p.cursor fd = some c → p.writable c.file = false ∨ offset.toInt < 0
  | .truncate name size => ∀ i, p.name i = some name → p.writable i = false ∨ size.toInt < 0
  | .ftruncate fd size => ∀ c, p.cursor fd = some c → p.writable c.file = false ∨ size.toInt < 0

/-- What a call does: a refused one nothing. -/
inductive Does : Plain → FileCall → FileReply → Plain → Prop where
  | open_ {p : Plain} {i : Nat} {name : Bytes} {flags : UInt32} {fd : Int32} :
      p.name i = some name → p.Opens i flags → p.cursor fd = none →
      Does p (.open_ name flags) (.descriptor fd) (p.move fd (some ⟨i, 0⟩))
  | dup {p : Plain} {fd new : Int32} {c : Cursor} :
      p.cursor fd = some c → p.writable c.file = false → p.cursor new = none →
      Does p (.dup fd) (.descriptor new) (p.move new (some c))
  | close {p : Plain} {fd : Int32} {c : Cursor} : p.cursor fd = some c →
      Does p (.close fd) .done (p.move fd none)
  | seek {p : Plain} {fd : Int32} {offset : Int64} {whence : Whence} {c : Cursor} :
      p.cursor fd = some c → p.Reaches c (p.target c offset.toInt whence) →
      Does p (.seek fd offset (some whence)) (.position (p.target c offset.toInt whence))
        (p.move fd (some ⟨c.file, (p.target c offset.toInt whence).toNat⟩))
  | read {p : Plain} {fd : Int32} {n : UInt64} {c : Cursor} : p.cursor fd = some c →
      Does p (.read fd n) (.bytes ((p.file c.file).read c.pos n.toNat))
        (p.move fd (some ⟨c.file, c.pos + ((p.file c.file).read c.pos n.toNat).length⟩))
  | pread {p : Plain} {fd : Int32} {n : UInt64} {offset : Int64} {c : Cursor} :
      p.cursor fd = some c → p.Reaches c offset.toInt →
      Does p (.pread fd n offset) (.bytes ((p.file c.file).read offset.toInt.toNat n.toNat)) p
  | write {p : Plain} {fd : Int32} {buf : Bytes} {c : Cursor} :
      p.cursor fd = some c → p.writable c.file = true →
      Does p (.write fd buf) (.count buf.length)
        ((p.change c.file ((p.file c.file).write c.pos buf)).move fd
          (some ⟨c.file, c.pos + buf.length⟩))
  | pwrite {p : Plain} {fd : Int32} {buf : Bytes} {offset : Int64} {c : Cursor} :
      p.cursor fd = some c → p.writable c.file = true → 0 ≤ offset.toInt →
      Does p (.pwrite fd buf offset) (.count buf.length)
        (p.change c.file ((p.file c.file).write offset.toInt.toNat buf))
  | truncate {p : Plain} {i : Nat} {name : Bytes} {size : Int64} :
      p.name i = some name → p.writable i = true → 0 ≤ size.toInt →
      Does p (.truncate name size) .done (p.truncate i size.toInt.toNat)
  | ftruncate {p : Plain} {fd : Int32} {size : Int64} {c : Cursor} :
      p.cursor fd = some c → p.writable c.file = true → 0 ≤ size.toInt →
      Does p (.ftruncate fd size) .done (p.truncate c.file size.toInt.toNat)
  | refused {p : Plain} {call : FileCall} (e : Errno) : p.Refuses call →
      Does p call (.refused e) p

end Plain

/-! ## The regular files of a table -/

namespace Files

def regular (fs : Files) (i : Nat) : Option MountedFile :=
  (fs.files[i]?).filter fun f => f.kind == .regular

/-- The table as byte sequences; a file's `data` is the file. -/
def plain (fs : Files) : Plain where
  name i := (fs.regular i).map MountedFile.name
  writable i := (fs.regular i).any MountedFile.writable
  file i := ((fs.regular i).map fun f => ByteFile.of f.data).getD .empty
  cursor fd := (fs.opened fd).bind fun o =>
    if o.2.kind = .regular then some ⟨o.1.file, o.1.pos.toNat⟩ else none
  past := fs.linuxAnswers

section Plain

variable {fs : Files} {i : Nat} {f : MountedFile} {h : OpenHandle} {fd : Int32}

theorem regular_eq : fs.regular i = some f ↔ fs.files[i]? = some f ∧ f.kind = .regular := by
  rw [regular, Option.filter_eq_some_iff, beq_iff_eq]

theorem plain_name (here : fs.files[i]? = some f) (is : f.kind = .regular) :
    fs.plain.name i = some f.name := by
  show (fs.regular i).map _ = _
  rw [regular_eq.mpr ⟨here, is⟩]
  rfl

theorem plain_writable (here : fs.files[i]? = some f) (is : f.kind = .regular) :
    fs.plain.writable i = f.writable := by
  show (fs.regular i).any _ = _
  rw [regular_eq.mpr ⟨here, is⟩]
  rfl

theorem plain_file (here : fs.files[i]? = some f) (is : f.kind = .regular) :
    fs.plain.file i = .of f.data := by
  show ((fs.regular i).map _).getD _ = _
  rw [regular_eq.mpr ⟨here, is⟩]
  rfl

theorem plain_cursor (opened : fs.opened fd = some (h, f)) (is : f.kind = .regular) :
    fs.plain.cursor fd = some ⟨h.file, h.pos.toNat⟩ := by
  show (fs.opened fd).bind _ = _
  rw [opened, Option.bind_some, if_pos is]

theorem plain_shut (shut : fs.opened fd = none) : fs.plain.cursor fd = none := by
  show (fs.opened fd).bind _ = _
  rw [shut]
  rfl

theorem of_plain_cursor {c : Plain.Cursor} (at_ : fs.plain.cursor fd = some c) :
    ∃ h f, fs.opened fd = some (h, f) ∧ f.kind = .regular ∧ c = ⟨h.file, h.pos.toNat⟩ := by
  obtain ⟨⟨h, f⟩, opened, place⟩ := Option.bind_eq_some_iff.mp at_
  split at place
  next is => exact ⟨h, f, opened, is, (Option.some.inj place).symm⟩
  · cases place

theorem of_plain_name {name : Bytes} (named : fs.plain.name i = some name) :
    ∃ f, fs.files[i]? = some f ∧ f.kind = .regular ∧ f.name = name := by
  obtain ⟨f, found, named⟩ := Option.map_eq_some_iff.mp named
  obtain ⟨here, is⟩ := regular_eq.mp found
  exact ⟨f, here, is, named⟩

end Plain

/-! ### What a change of the table changes -/

section Changes

variable {fs fs' : Files} {names : Int32 → Option Bytes} {i : Nat} {f : MountedFile}
variable {h : OpenHandle} {fd : Int32}

theorem opened_map (fs : Files) {move : OpenHandle → OpenHandle}
    (keeps : ∀ h, (move h).fd = h.fd ∧ (move h).file = h.file) (fd : Int32) :
    ({ fs with handles := fs.handles.map move } : Files).opened fd =
      (fs.opened fd).map fun o => (move o.1, o.2) := by
  have found : (fs.handles.map move).find? (·.fd == fd) = (fs.handleByFd fd).map move := by
    have same : ((·.fd == fd) ∘ move) = fun h : OpenHandle => h.fd == fd :=
      funext fun h => congrArg (· == fd) (keeps h).1
    rw [List.find?_map, same]
    rfl
  unfold opened
  rw [show handleByFd { fs with handles := fs.handles.map move } fd = _ from found]
  cases fs.handleByFd fd with
  | none => rfl
  | some h =>
    rw [Option.map_some]
    dsimp only
    rw [(keeps h).2, Option.map_map]
    rfl

theorem opened_modify (fs : Files) (i : Nat) (change : MountedFile → MountedFile) (fd : Int32) :
    (fs.onFile i change).opened fd =
      (fs.opened fd).map fun o => (o.1, if i = o.1.file then change o.2 else o.2) := by
  unfold opened
  rw [show (fs.onFile i change).handleByFd fd = fs.handleByFd fd from rfl]
  cases fs.handleByFd fd with
  | none => rfl
  | some h =>
    show ((fs.files.modify i change)[h.file]?).map _ = _
    rw [List.getElem?_modify, Option.map_map]
    show Option.map _ ((fun f => if i = h.file then change f else f) <$> fs.files[h.file]?) = _
    rw [Option.map_eq_map, Option.map_map]
    rfl

theorem plain_moved (sound : fs.Sound names) (opened : fs.opened fd = some (h, f))
    (is : f.kind = .regular) (pos : UInt64) :
    (fs.moved fd pos).plain = fs.plain.move fd (some ⟨h.file, pos.toNat⟩) := by
  have keeps := fun k : OpenHandle => @ite_keeps (k.fd = fd) _ k { k with pos } ⟨rfl, rfl⟩
  have cursor : (fs.moved fd pos).plain.cursor =
      (fs.plain.move fd (some ⟨h.file, pos.toNat⟩)).cursor := by
    funext k
    by_cases same : k = fd
    · subst same
      rw [plain_cursor (opened_moved opened pos) is, Plain.move_self]
    · have away : (fs.moved fd pos).opened k = fs.opened k := by
        rw [moved, sound.onHandle, opened_map fs keeps]
        cases search : fs.opened k with
        | none => rfl
        | some o =>
          obtain ⟨-, here, -⟩ := sound.opened.mp search
          rw [Option.map_some, if_neg (fun there => same (here.symm.trans there))]
      rw [Plain.move_other _ same]
      exact congrArg (Option.bind · _) away
  exact Plain.ext rfl rfl rfl cursor rfl

theorem plain_onFile (here : fs.files[i]? = some f) (is : f.kind = .regular)
    {change : MountedFile → MountedFile} (sig : ∀ f, (change f).sig = f.sig) :
    (fs.onFile i change).plain = fs.plain.change i (.of (change f).data) := by
  have name : ∀ f, (change f).name = f.name := fun f => congrArg (·.1) (sig f)
  have kind : ∀ f, (change f).kind = f.kind := fun f => congrArg (·.2.1) (sig f)
  have writable : ∀ f, (change f).writable = f.writable := fun f => congrArg (·.2.2) (sig f)
  have other : ∀ j ≠ i, (fs.onFile i change).regular j = fs.regular j := fun j apart => by
    unfold regular
    rw [show (fs.onFile i change).files[j]? = fs.files[j]? from
      List.getElem?_modify_ne _ _ (Ne.symm apart)]
  have this : (fs.onFile i change).files[i]? = some (change f) := by
    show (fs.files.modify i change)[i]? = _
    rw [List.getElem?_modify_eq, here]
    rfl
  have is' : (change f).kind = .regular := (kind f).trans is
  refine Plain.ext ?_ ?_ ?_ ?_ rfl
  · funext j
    by_cases same : j = i
    · subst same
      rw [plain_name this is', name]
      exact (plain_name here is).symm
    · exact congrArg (Option.map _) (other j same)
  · funext j
    by_cases same : j = i
    · subst same
      rw [plain_writable this is', writable]
      exact (plain_writable here is).symm
    · exact congrArg (Option.any _) (other j same)
  · funext j
    by_cases same : j = i
    · subst same
      rw [plain_file this is', Plain.change_self]
    · rw [Plain.change_other _ same]
      exact congrArg (fun r => (Option.map _ r).getD _) (other j same)
  · funext fd
    show ((fs.onFile i change).opened fd).bind _ = (fs.opened fd).bind _
    rw [opened_modify, Option.bind_map]
    cases fs.opened fd with
    | none => rfl
    | some o =>
      have same : (if i = o.1.file then change o.2 else o.2).kind = o.2.kind := by
        split
        · exact kind _
        · rfl
      simp only [Option.bind_some, Function.comp_apply, same]

theorem plain_map (fs : Files) {move : OpenHandle → OpenHandle}
    {place : Plain.Cursor → Plain.Cursor}
    (keeps : ∀ h, (move h).fd = h.fd ∧ (move h).file = h.file)
    (moves : ∀ h : OpenHandle, place ⟨h.file, h.pos.toNat⟩ = ⟨h.file, (move h).pos.toNat⟩) :
    ({ fs with handles := fs.handles.map move } : Files).plain =
      { fs.plain with cursor := fun fd => (fs.plain.cursor fd).map place } := by
  refine Plain.ext rfl rfl rfl (funext fun fd => ?_) rfl
  show (({ fs with handles := fs.handles.map move } : Files).opened fd).bind _ =
    ((fs.opened fd).bind _).map place
  rw [opened_map fs keeps, Option.bind_map]
  cases fs.opened fd with
  | none => rfl
  | some o =>
    rw [Option.bind_some, Option.bind_some]
    dsimp only [Function.comp_apply]
    rw [(keeps o.1).2]
    split
    · rw [Option.map_some, moves]
    · rfl

theorem plain_truncated (here : fs.files[i]? = some f) (is : f.kind = .regular) (size : UInt64) :
    (fs.truncated i size).plain = fs.plain.truncate i size.toNat := by
  have file : ByteFile.of (resize f.data size.toNat) = (ByteFile.of f.data).truncate size.toNat :=
    ByteFile.of_truncate (resize_length ..) fun j inside => by
      rw [resize_getElem?, if_pos inside]
  have changed :
      (fs.onFile i fun f => { f with data := resize f.data size.toNat, len := size }).plain =
      fs.plain.change i ((fs.plain.file i).truncate size.toNat) := by
    have onFile := @plain_onFile fs i f here is
      (fun f => { f with data := resize f.data size.toNat, len := size }) fun _ => rfl
    rw [onFile, file, plain_file here is]
  have keeps := fun h : OpenHandle =>
    @ite_keeps (h.file = i ∧ size < h.pos) _ h { h with pos := size } ⟨rfl, rfl⟩
  have moved := @plain_map (fs.onFile i fun f =>
      { f with data := resize f.data size.toNat, len := size })
    _ (fun c => if c.file = i then { c with pos := min c.pos size.toNat } else c) keeps fun h => by
      dsimp only
      by_cases on : h.file = i
      · rw [if_pos on]
        split
        next past =>
          have := UInt64.lt_iff_toNat_lt.mp past.2
          dsimp only
          rw [Nat.min_eq_right (by omega)]
        next within =>
          have : h.pos.toNat ≤ size.toNat := UInt64.le_iff_toNat_le.mp
            (UInt64.not_lt.mp fun past => within ⟨on, past⟩)
          rw [Nat.min_eq_left this]
      · rw [if_neg on, if_neg fun both => on both.1]
  rw [changed] at moved
  exact moved

theorem opened_handleAdd (small : fs.handles.length < 2 ^ 31) (i : Nat) (pos : UInt64)
    (fd : Int32) :
    (fs.handleAdd i pos).2.opened fd =
      if fd = (fs.handleAdd i pos).1 then
        (fs.files[i]?).map fun f => (⟨(fs.handleAdd i pos).1, i, pos⟩, f)
      else fs.opened fd := by
  have free := (handleAdd_lowest small i pos).free
  unfold handleAdd opened handleByFd at *
  dsimp only at free ⊢
  generalize fs.lowestFree fs.handles.length 0 = new at free
  rw [List.find?_append]
  by_cases same : fd = new
  · have none_ : fs.handles.find? (·.fd == fd) = none :=
      List.find?_eq_none.mpr fun h member => by simpa [same] using free h member
    rw [if_pos same, none_, same]
    simp
  · have none_ : [(⟨new, i, pos⟩ : OpenHandle)].find? (·.fd == fd) = none := by simp [Ne.symm same]
    rw [if_neg same, none_, Option.or_none]

theorem plain_handleAdd (small : fs.handles.length < 2 ^ 31) (here : fs.files[i]? = some f)
    (is : f.kind = .regular) (pos : UInt64) :
    (fs.handleAdd i pos).2.plain = fs.plain.move (fs.handleAdd i pos).1 (some ⟨i, pos.toNat⟩) := by
  refine Plain.ext rfl rfl rfl (funext fun fd => ?_) rfl
  have opened := opened_handleAdd small i pos fd
  split at opened
  next same =>
    rw [here] at opened
    rw [plain_cursor opened is, same, Plain.move_self]
  next other =>
    rw [Plain.move_other _ other]
    exact congrArg (Option.bind · _) opened

theorem plain_close (kept : fs.Kept names) (closed : fs.close fd = (.ok (), fs')) :
    fs'.plain = fs.plain.move fd none := by
  have kept' : fs'.Kept (Function.update names fd none) := by
    rcases kept.close fd with shut | ⟨_, same, after⟩
    · rw [shut] at closed
      cases closed
    · rw [same] at closed
      cases closed
      exact after
  unfold close at closed
  split at closed
  next h last found ends =>
    cases closed
    refine Plain.ext rfl rfl rfl (funext fun k => ?_) rfl
    have mem := kept.sound.mem_close found ends
    by_cases same : k = fd
    · rw [same, Plain.move_self]
      refine plain_shut (Option.eq_none_iff_forall_ne_some.mpr fun o opened => ?_)
      obtain ⟨member, here, -⟩ := kept'.sound.opened.mp opened
      exact ((mem o.1).mp member).2 here
    · rw [Plain.move_other _ same]
      refine congrArg (Option.bind · _) (Option.ext fun ⟨h, f⟩ => ?_)
      rw [kept'.sound.opened, kept.sound.opened]
      constructor
      · rintro ⟨member, here, at_⟩
        exact ⟨((mem h).mp member).1, here, at_⟩
      · rintro ⟨member, here, at_⟩
        exact ⟨(mem h).mpr ⟨member, fun gone => same (here.symm.trans gone)⟩, here, at_⟩
  · cases closed

end Changes

end Files

end MiniBox
