import Mathlib.Data.List.Perm.Subperm
import MiniBox.Host.Dispatch

/-!
# Descriptors

A handle names its file by an index, an unmount moves the files behind the one it takes
away, and a close puts the last handle in the place of another.  What a descriptor means is
kept here beside the table: the mount name it was opened on.

`Files.Sound` ties the two, and every operation keeps it.
-/

namespace MiniBox

open Lib

/-- What no operation changes of a file. -/
def MountedFile.sig (f : MountedFile) : Bytes × FileKind × Bool := (f.name, f.kind, f.writable)

namespace Files

/-- The table with the mount names its descriptors were opened on. -/
structure Sound (fs : Files) (names : Int32 → Option Bytes) : Prop where
  fds : (fs.handles.map OpenHandle.fd).Nodup
  nonneg : ∀ h ∈ fs.handles, 0 ≤ h.fd
  file : ∀ h ∈ fs.handles, ∃ f, fs.files[h.file]? = some f ∧ names h.fd = some f.name
  shut : ∀ fd, (∀ h ∈ fs.handles, h.fd ≠ fd) → names fd = none
  mounts : (fs.files.map MountedFile.name).Nodup
  /-- a name is a C string -/
  text : ∀ f ∈ fs.files, 0 ∉ f.name

section Lookup

variable {fs : Files} {names : Int32 → Option Bytes} {fd : Int32} {h : OpenHandle} {f : MountedFile}

theorem Sound.unique (sound : fs.Sound names) {k : OpenHandle} (left : h ∈ fs.handles)
    (right : k ∈ fs.handles) (same : h.fd = k.fd) : h = k :=
  List.inj_on_of_nodup_map sound.fds left right same

theorem Sound.handleByFd (sound : fs.Sound names) :
    fs.handleByFd fd = some h ↔ h ∈ fs.handles ∧ h.fd = fd := by
  constructor
  · intro found
    exact ⟨List.mem_of_find?_eq_some found, by simpa using List.find?_some found⟩
  · rintro ⟨member, rfl⟩
    cases search : fs.handleByFd h.fd with
    | none =>
      have none_ := List.find?_eq_none.mp search h member
      simp at none_
    | some k =>
      have same : k.fd = h.fd := by simpa using List.find?_some search
      rw [sound.unique (List.mem_of_find?_eq_some search) member same]

theorem Sound.opened (sound : fs.Sound names) :
    fs.opened fd = some (h, f) ↔ h ∈ fs.handles ∧ h.fd = fd ∧ fs.files[h.file]? = some f := by
  unfold Files.opened
  cases search : fs.handleByFd fd with
  | none =>
    simp only [reduceCtorEq, false_iff, not_and]
    intro member here
    rw [sound.handleByFd.mpr ⟨member, here⟩] at search
    cases search
  | some k =>
    obtain ⟨member, here⟩ := sound.handleByFd.mp search
    simp only [Option.map_eq_some_iff, Prod.mk.injEq]
    constructor
    · rintro ⟨g, at_, rfl, rfl⟩
      exact ⟨member, here, at_⟩
    · rintro ⟨inside, there, at_⟩
      obtain rfl := sound.unique member inside (here.trans there.symm)
      exact ⟨f, at_, rfl, rfl⟩

/-- A descriptor means the name it was opened on. -/
theorem Sound.means (sound : fs.Sound names) (fd : Int32) :
    (fs.opened fd).map (fun o => o.2.name) = names fd := by
  cases found : fs.opened fd with
  | some o =>
    obtain ⟨member, rfl, at_⟩ := sound.opened.mp found
    obtain ⟨f, there, named⟩ := sound.file o.1 member
    rw [at_] at there
    cases there
    exact named.symm
  | none =>
    refine (sound.shut fd fun h member here => ?_).symm
    obtain ⟨f, at_, -⟩ := sound.file h member
    rw [sound.opened.mpr ⟨member, here, at_⟩] at found
    cases found

theorem byName_eq {name : Bytes} (found : fs.byName name = some f) :
    fs.files[fs.fileIndex name]? = some f ∧ f.name = name := by
  have named : f.name = name := by simpa using List.find?_some found
  refine ⟨?_, named⟩
  rw [fileIndex, ← List.find?_eq_getElem?_findIdx]
  exact found

end Lookup

/-! ## New descriptors -/

/-- The lowest number that is not in use. -/
structure Lowest (fs : Files) (fd : Int32) : Prop where
  nonneg : 0 ≤ fd
  free : ∀ h ∈ fs.handles, h.fd ≠ fd
  least : ∀ k, 0 ≤ k → k < fd → ∃ h ∈ fs.handles, h.fd = k

section Lowest

variable {fs : Files} {names : Int32 → Option Bytes}

theorem ofNat_toInt {n : Nat} (small : n < 2 ^ 31) : (Int32.ofNat n).toInt = n :=
  Int32.toInt_ofNat_of_lt small

/-- As many numbers are in use as there are below one that all are. -/
theorem used_le {n : Nat} (small : n ≤ 2 ^ 31)
    (used : ∀ k < n, ∃ h ∈ fs.handles, h.fd = Int32.ofNat k) : n ≤ fs.handles.length := by
  have below : List.range n ⊆ fs.handles.map fun h => h.fd.toInt.toNat := by
    intro k inside
    have less := List.mem_range.mp inside
    obtain ⟨h, member, here⟩ := used k less
    refine List.mem_map.mpr ⟨h, member, ?_⟩
    rw [here, ofNat_toInt (by omega), Int.toNat_natCast]
  have few := (List.subperm_of_subset List.nodup_range below).length_le
  rwa [List.length_range, List.length_map] at few

theorem lowestFree_lowest : ∀ {fuel n : Nat}, n + fuel = fs.handles.length →
    fs.handles.length < 2 ^ 31 → (∀ k < n, ∃ h ∈ fs.handles, h.fd = Int32.ofNat k) →
    fs.Lowest (fs.lowestFree fuel (Int32.ofNat n))
  | fuel, n, all, small, used => by
    have here : (∀ h ∈ fs.handles, h.fd ≠ Int32.ofNat n) → fs.Lowest (Int32.ofNat n) := by
      intro free
      refine ⟨?_, free, fun k low less => ?_⟩
      · rw [Int32.le_iff_toInt_le, ofNat_toInt (by omega)]
        simp
      · rw [Int32.le_iff_toInt_le] at low
        rw [Int32.lt_iff_toInt_lt, ofNat_toInt (by omega)] at less
        have low : 0 ≤ k.toInt := by simpa using low
        have same : Int32.ofNat k.toInt.toNat = k := by
          refine Int32.toInt_inj.mp ?_
          rw [ofNat_toInt (by omega)]
          omega
        obtain ⟨h, member, at_⟩ := used k.toInt.toNat (by omega)
        exact ⟨h, member, at_.trans same⟩
    have more : (∃ h ∈ fs.handles, h.fd = Int32.ofNat n) →
        ∀ k < n + 1, ∃ h ∈ fs.handles, h.fd = Int32.ofNat k := by
      intro taken k less
      rcases Nat.lt_succ_iff_lt_or_eq.mp less with less | rfl
      · exact used k less
      · exact taken
    cases fuel with
    | zero =>
      refine here fun h member same => ?_
      have few := used_le (by omega) (more ⟨h, member, same⟩)
      omega
    | succ fuel =>
      rw [lowestFree]
      split
      · rename_i taken
        obtain ⟨h, found⟩ := Option.isSome_iff_exists.mp taken
        have next : Int32.ofNat n + 1 = Int32.ofNat (n + 1) := by
          rw [Int32.ofNat_add]
          rfl
        rw [next]
        refine lowestFree_lowest (by omega) small (more ⟨h, List.mem_of_find?_eq_some found, ?_⟩)
        simpa using List.find?_some found
      · rename_i free
        refine here fun h member same => free ?_
        rw [handleByFd, List.find?_isSome]
        exact ⟨h, member, by simpa using same⟩

theorem handleAdd_lowest (small : fs.handles.length < 2 ^ 31) (file : Nat) (pos : UInt64) :
    fs.Lowest (fs.handleAdd file pos).1 :=
  lowestFree_lowest (n := 0) (Nat.zero_add _) small fun _ less => absurd less (Nat.not_lt_zero _)

end Lowest

/-! ## What the operations keep -/

/-- A file that can be written is open on one descriptor. -/
def Single (fs : Files) : Prop :=
  ∀ h ∈ fs.handles, ∀ k ∈ fs.handles, h.file = k.file →
    ∀ f, fs.files[h.file]? = some f → f.hasBytes = true → f.writable = true → h = k

/-- No position is past the end, unless positions may go there. -/
def Bounded (fs : Files) : Prop :=
  fs.linuxAnswers = false → ∀ h ∈ fs.handles, ∀ f, fs.files[h.file]? = some f → h.pos ≤ f.len

/-- The same descriptors on the same files, which may have moved. -/
structure Steady (fs fs' : Files) (move : OpenHandle → OpenHandle) : Prop where
  handles : fs'.handles = fs.handles.map move
  fd : ∀ h, (move h).fd = h.fd
  file : ∀ h ∈ fs.handles, ∀ f, fs.files[h.file]? = some f →
    ∃ f', fs'.files[(move h).file]? = some f' ∧ f'.sig = f.sig
  apart : ∀ h ∈ fs.handles, ∀ k ∈ fs.handles, (move h).file = (move k).file → h.file = k.file
  mounts : (fs'.files.map MountedFile.name).Nodup
  text : ∀ f ∈ fs'.files, 0 ∉ f.name

section Steady

variable {fs fs' : Files} {names : Int32 → Option Bytes} {move : OpenHandle → OpenHandle}

theorem Steady.sound (steady : Steady fs fs' move) (sound : fs.Sound names) : fs'.Sound names := by
  have from_ : ∀ {h'}, h' ∈ fs'.handles → ∃ h ∈ fs.handles, move h = h' := fun inside => by
    rw [steady.handles] at inside
    exact List.mem_map.mp inside
  refine ⟨?_, ?_, ?_, ?_, steady.mounts, steady.text⟩
  · have same : OpenHandle.fd ∘ move = OpenHandle.fd := funext steady.fd
    rw [steady.handles, List.map_map, same]
    exact sound.fds
  · intro h' inside
    obtain ⟨h, member, rfl⟩ := from_ inside
    rw [steady.fd]
    exact sound.nonneg h member
  · intro h' inside
    obtain ⟨h, member, rfl⟩ := from_ inside
    obtain ⟨f, at_, named⟩ := sound.file h member
    obtain ⟨f', there, same⟩ := steady.file h member f at_
    refine ⟨f', there, ?_⟩
    rw [steady.fd, named]
    exact congrArg (fun s => some s.1) same.symm
  · intro fd shut
    refine sound.shut fd fun h member => ?_
    rw [← steady.fd h]
    refine shut _ ?_
    rw [steady.handles]
    exact List.mem_map_of_mem member

theorem Steady.single (steady : Steady fs fs' move) (sound : fs.Sound names) (single : fs.Single) :
    fs'.Single := by
  intro h' left k' right same f' at_ bytes writable
  rw [steady.handles] at left right
  obtain ⟨h, member, rfl⟩ := List.mem_map.mp left
  obtain ⟨k, among, rfl⟩ := List.mem_map.mp right
  obtain ⟨f, there, -⟩ := sound.file h member
  obtain ⟨g, found, sig⟩ := steady.file h member f there
  rw [at_] at found
  cases found
  obtain ⟨-, kind, writes⟩ : f'.name = f.name ∧ f'.kind = f.kind ∧ f'.writable = f.writable := by
    simpa [MountedFile.sig] using sig
  rw [single h member k among (steady.apart h member k among same) f there]
  · simpa [MountedFile.hasBytes, MountedFile.hostFile, kind] using bytes
  · rw [← writes]
    exact writable

/-- What is known of a table in a run. -/
structure Kept (fs : Files) (names : Int32 → Option Bytes) : Prop where
  sound : fs.Sound names
  single : fs.Single
  bounded : fs.Bounded

/-- The files changed in place, and the handles left where they are. -/
theorem Sound.steady_files (sound : fs.Sound names) (i : Nat) (change : MountedFile → MountedFile)
    (sig : ∀ f, (change f).sig = f.sig) (keeps : ∀ h, (move h).fd = h.fd ∧ (move h).file = h.file) :
    Steady fs { fs with files := fs.files.modify i change, handles := fs.handles.map move }
      move := by
  have named : ∀ f, (change f).name = f.name := fun f => congrArg Prod.fst (sig f)
  refine ⟨rfl, fun h => (keeps h).1, fun h member f at_ => ?_, fun h _ k _ same => ?_, ?_, ?_⟩
  · rw [(keeps h).2]
    show ∃ f', (fs.files.modify i change)[h.file]? = some f' ∧ _
    rw [List.getElem?_modify, at_]
    split
    · exact ⟨change f, rfl, sig f⟩
    · exact ⟨f, rfl, rfl⟩
  · rwa [(keeps h).2, (keeps k).2] at same
  · show ((fs.files.modify i change).map MountedFile.name).Nodup
    rw [map_modify_self named]
    exact sound.mounts
  · have text : ∀ f ∈ fs.files, 0 ∉ (change f).name := fun f member => by
      rw [named]
      exact sound.text f member
    exact forall_mem_modify sound.text text

end Steady

section Operations

variable {fs fs' : Files} {names : Int32 → Option Bytes} {fd : Int32} {h : OpenHandle}
variable {f : MountedFile} {i : Nat} {buf name : Bytes} {pos : UInt64} {last : OpenHandle}

theorem Kept.steady {move : OpenHandle → OpenHandle} (kept : fs.Kept names)
    (steady : Steady fs fs' move) (bounded : fs'.Bounded) : fs'.Kept names :=
  ⟨steady.sound kept.sound, steady.single kept.sound kept.single, bounded⟩

/-! ### One handle or one file changed -/

theorem Sound.onHandle (sound : fs.Sound names) (fd : Int32) (g : OpenHandle → OpenHandle) :
    fs.onHandle fd g =
      { fs with handles := fs.handles.map fun h => if h.fd = fd then g h else h } := by
  rw [Files.onHandle, Files.handleIndex, modify_findIdx fd g sound.fds]

/-- A handle that is changed when something holds, and not in its descriptor or file. -/
theorem ite_keeps {c : Prop} [Decidable c] {k k' : OpenHandle}
    (keeps : k'.fd = k.fd ∧ k'.file = k.file) :
    (if c then k' else k).fd = k.fd ∧ (if c then k' else k).file = k.file := by
  split
  · exact keeps
  · exact ⟨rfl, rfl⟩

theorem Kept.onHandle (kept : fs.Kept names) {g : OpenHandle → OpenHandle}
    (opened : fs.opened fd = some (h, f)) (keeps : ∀ k, (g k).fd = k.fd ∧ (g k).file = k.file)
    (inside : fs.linuxAnswers = false → (g h).pos ≤ f.len) : (fs.onHandle fd g).Kept names := by
  obtain ⟨member, here, at_⟩ := kept.sound.opened.mp opened
  have moves := fun k => @ite_keeps (k.fd = fd) _ k (g k) (keeps k)
  have steady := kept.sound.steady_files fs.files.length id (fun _ => rfl) moves
  rw [List.modify_id] at steady
  rw [kept.sound.onHandle]
  refine kept.steady steady fun strict k' among q there => ?_
  obtain ⟨k, inside_, rfl⟩ := List.mem_map.mp among
  rw [(moves k).2] at there
  split
  · rename_i same
    obtain rfl := kept.sound.unique inside_ member (same.trans here.symm)
    rw [at_] at there
    cases there
    exact inside strict
  · exact kept.bounded strict k inside_ q there

theorem Kept.onFile (kept : fs.Kept names) {change : MountedFile → MountedFile}
    (sig : ∀ f, (change f).sig = f.sig)
    (grows : ∀ f, fs.files[i]? = some f → f.len ≤ (change f).len) :
    (fs.onFile i change).Kept names := by
  have stay : ∀ h : OpenHandle, (id h).fd = h.fd ∧ (id h).file = h.file := fun _ => ⟨rfl, rfl⟩
  have steady := kept.sound.steady_files i change sig stay
  rw [List.map_id] at steady
  refine kept.steady steady fun strict k member q there => ?_
  change (fs.files.modify i change)[k.file]? = some q at there
  rw [List.getElem?_modify] at there
  split at there
  · rename_i same
    obtain ⟨f, at_, rfl⟩ := Option.map_eq_some_iff.mp there
    exact UInt64.le_trans (kept.bounded strict k member f at_) (grows f (same ▸ at_))
  · obtain ⟨f, at_, rfl⟩ := Option.map_eq_some_iff.mp there
    exact kept.bounded strict k member f at_

theorem opened_onFile (opened : fs.opened fd = some (h, f)) (change : MountedFile → MountedFile) :
    (fs.onFile h.file change).opened fd = some (h, change f) := by
  have handles : (fs.onFile h.file change).handleByFd fd = fs.handleByFd fd := rfl
  unfold Files.opened at opened ⊢
  rw [handles]
  cases found : fs.handleByFd fd with
  | none =>
    rw [found] at opened
    cases opened
  | some k =>
    rw [found] at opened
    obtain ⟨q, at_, same⟩ := Option.map_eq_some_iff.mp opened
    cases same
    simp [Files.onFile, at_]

/-! ### Reading, writing and seeking -/

theorem toNat_sub_of_lt {a b : UInt64} (less : a < b) : (b - a).toNat = b.toNat - a.toNat :=
  UInt64.toNat_sub_of_le _ _ (UInt64.le_of_lt less)

theorem left_toNat (h : OpenHandle) (f : MountedFile) :
    (left h f).toNat = f.len.toNat - h.pos.toNat := by
  unfold left
  split
  next before => exact toNat_sub_of_lt before
  next past =>
    have := UInt64.le_iff_toNat_le.mp (UInt64.not_lt.mp past)
    rw [UInt64.toNat_zero]
    omega

theorem min_toNat (a b : UInt64) : (min a b).toNat = min a.toNat b.toNat := by
  show (if a ≤ b then a else b).toNat = _
  split
  next less => exact (Nat.min_eq_left (UInt64.le_iff_toNat_le.mp less)).symm
  next more =>
    exact (Nat.min_eq_right (Nat.le_of_not_le fun less => more
      (UInt64.le_iff_toNat_le.mpr less))).symm

theorem Kept.read (kept : fs.Kept names) (fd : Int32) (n : UInt64) :
    (fs.read fd n).2.Kept names := by
  unfold Files.read
  split
  · exact kept
  · rename_i h f opened
    split
    · exact kept
    · split
      · exact kept
      · refine kept.onHandle opened (fun _ => ⟨rfl, rfl⟩) fun strict => ?_
        obtain ⟨member, -, at_⟩ := kept.sound.opened.mp opened
        have before := kept.bounded strict h member f at_
        have few := List.length_take_le (min n (left h f)).toNat (f.data.drop h.pos.toNat)
        rw [min_toNat, left_toNat] at few
        rw [min_toNat, left_toNat]
        show h.pos + UInt64.ofNat _ ≤ f.len
        rw [UInt64.le_iff_toNat_le] at before ⊢
        have bound := f.len.toNat_lt
        rw [UInt64.toNat_add, UInt64.toNat_ofNat']
        omega

theorem written_sig (f : MountedFile) (at_ : Nat) (buf : Bytes) : (f.written at_ buf).sig = f.sig :=
    rfl

theorem written_len {at_ : Nat} (small : at_ + buf.length < 2 ^ 64) :
    (f.written at_ buf).len.toNat = max f.len.toNat (at_ + buf.length) := by
  have bound := f.len.toNat_lt
  show (UInt64.ofNat (max f.len.toNat (at_ + buf.length))).toNat = _
  rw [UInt64.toNat_ofNat']
  omega

/-- A sum that does not wrap. -/
theorem add_lt_of_not_wraps {n : UInt64} (fits : ¬ pos + n < pos) :
    pos.toNat + n.toNat < 2 ^ 64 := by
  rw [UInt64.lt_iff_toNat_lt, UInt64.toNat_add] at fits
  have bound := pos.toNat_lt
  have bound' := n.toNat_lt
  omega

theorem Kept.putBytes (kept : fs.Kept names) (file : Nat) {at_ : UInt64}
    (small : at_.toNat + buf.length < 2 ^ 64) : (fs.putBytes file at_ buf).Kept names := by
  refine kept.onFile (fun _ => rfl) fun f _ => ?_
  rw [UInt64.le_iff_toNat_le, written_len small]
  exact Nat.le_max_left _ _

theorem Kept.write (kept : fs.Kept names) (fd : Int32) {buf : Bytes} (size : buf.length < 2 ^ 64) :
    (fs.write fd buf).2.Kept names := by
  unfold Files.write
  split
  · exact kept
  · rename_i h f opened
    have n : (UInt64.ofNat buf.length).toNat = buf.length := UInt64.toNat_ofNat_of_lt' size
    dsimp only
    split
    · exact ⟨⟨kept.sound.fds, kept.sound.nonneg, kept.sound.file, kept.sound.shut,
        kept.sound.mounts, kept.sound.text⟩, kept.single, kept.bounded⟩
    · split
      · exact kept
      · split
        · exact kept
        · rename_i fits
          have small := add_lt_of_not_wraps fits
          rw [n] at small
          refine (kept.putBytes h.file small).onHandle (opened_onFile opened _)
            (fun _ => ⟨rfl, rfl⟩) fun _ => ?_
          show h.pos + UInt64.ofNat buf.length ≤ _
          rw [UInt64.le_iff_toNat_le, written_len small, UInt64.toNat_add, n]
          omega

theorem Kept.pwrite (kept : fs.Kept names) (fd : Int32) {buf : Bytes} (offset : Int64)
    (size : buf.length < 2 ^ 64) : (fs.pwrite fd buf offset).2.Kept names := by
  unfold Files.pwrite
  split
  · exact kept
  · have n : (UInt64.ofNat buf.length).toNat = buf.length := UInt64.toNat_ofNat_of_lt' size
    dsimp only
    split
    · exact kept
    · split
      · exact kept
      · split
        · exact kept
        · split
          · exact kept
          · split
            · exact kept
            · rename_i fits
              have small := add_lt_of_not_wraps fits
              rw [n] at small
              exact kept.putBytes _ small

/-- A word as a signed number. -/
theorem toInt_toInt64 (x : UInt64) :
    x.toInt64.toInt = if 2 * x.toNat < 2 ^ 64 then (x.toNat : Int) else x.toNat - 2 ^ 64 :=
  BitVec.toInt_eq_toNat_cond x.toBitVec

theorem le_of_signed {x len : UInt64} (low : ¬ x.toInt64 < 0) (high : ¬ len.toInt64 < x.toInt64) :
    x ≤ len := by
  have bound := x.toNat_lt
  have bound' := len.toNat_lt
  rw [Int64.lt_iff_toInt_lt, toInt_toInt64] at low
  rw [Int64.lt_iff_toInt_lt, toInt_toInt64, toInt_toInt64] at high
  rw [UInt64.le_iff_toNat_le]
  have zero : (0 : Int64).toInt = 0 := rfl
  split at low <;> split at high <;> omega

/-- The table with a descriptor at another position. -/
def moved (fs : Files) (fd : Int32) (pos : UInt64) : Files :=
  fs.onHandle fd fun h => { h with pos }

/-- Where a seek goes from a descriptor. -/
def Whence.place (h : OpenHandle) (f : MountedFile) (offset : Int64) : Whence → Int64
  | .set => offset
  | .cur => h.pos.toInt64 + offset
  | .end_ => f.len.toInt64 + offset

/-- Where a seek may go in a file. -/
def Reaches (fs : Files) (f : MountedFile) (newpos : Int64) : Prop :=
  f.hasBytes = true ∧ ¬ (newpos < 0 ∨ (!fs.linuxAnswers) = true ∧ f.len.toInt64 < newpos)

/-- A seek that may not go where it asks to changes nothing; one that may moves one descriptor. -/
theorem seek_cases (fs : Files) (fd : Int32) (offset : Int64) (whence : Option Whence) :
    (∃ e, fs.seek fd offset whence = (.error e, fs) ∧ ∀ h f w, fs.opened fd = some (h, f) →
        whence = some w → ¬ fs.Reaches f (w.place h f offset)) ∨
      ∃ h f w, fs.opened fd = some (h, f) ∧ whence = some w ∧ fs.Reaches f (w.place h f offset) ∧
        fs.seek fd offset whence =
          (.ok (w.place h f offset), fs.moved fd (w.place h f offset).toUInt64) := by
  unfold seek
  cases opened : fs.opened fd with
  | none => exact .inl ⟨_, rfl, fun _ _ _ found => nomatch found⟩
  | some o =>
    obtain ⟨h, f⟩ := o
    dsimp only
    split
    next none_ =>
      refine .inl ⟨_, rfl, fun h' f' w found _ reaches => ?_⟩
      cases found
      rw [reaches.1] at none_
      cases none_
    next bytes =>
      cases whence with
      | none => exact .inl ⟨_, rfl, fun _ _ _ _ some_ => nomatch some_⟩
      | some w =>
        by_cases out : w.place h f offset < 0 ∨
            (!fs.linuxAnswers) = true ∧ f.len.toInt64 < w.place h f offset
        · refine .inl ⟨.einval, by cases w <;> exact if_pos out, fun h' f' w' found some_ reaches =>
            ?_⟩
          cases found
          cases some_
          exact reaches.2 out
        · refine .inr ⟨h, f, w, rfl, rfl, ⟨by simpa using bytes, out⟩, ?_⟩
          cases w <;> exact if_neg out

section

variable (kept : fs.Kept names)
include kept

theorem Kept.seek (fd : Int32) (offset : Int64) (whence : Option Whence) :
    (fs.seek fd offset whence).2.Kept names := by
  rcases fs.seek_cases fd offset whence with ⟨e, same, -⟩ | ⟨h, f, w, opened, -, ⟨-, fine⟩, there⟩
  · rw [same]
    exact kept
  · rw [there]
    obtain ⟨low, high⟩ := not_or.mp fine
    refine kept.onHandle opened (fun _ => ⟨rfl, rfl⟩) fun strict => ?_
    refine le_of_signed (x := (w.place h f offset).toUInt64) low fun past => high ⟨?_, past⟩
    rw [strict]
    rfl

/-! ### Truncating -/

theorem Kept.truncated (i : Nat) (size : UInt64) : (fs.truncated i size).Kept names := by
  have moves := fun h : OpenHandle =>
    @ite_keeps (h.file = i ∧ size < h.pos) _ h { h with pos := size } ⟨rfl, rfl⟩
  have sig : ∀ f : MountedFile,
      ({ f with data := resize f.data size.toNat, len := size } : MountedFile).sig = f.sig :=
      fun _ => rfl
  refine kept.steady (kept.sound.steady_files i _ sig moves) fun strict k' among q there => ?_
  obtain ⟨k, member, rfl⟩ := List.mem_map.mp among
  rw [(moves k).2] at there
  change (fs.files.modify i _)[k.file]? = some q at there
  rw [List.getElem?_modify] at there
  obtain ⟨f, at_, rfl⟩ := Option.map_eq_some_iff.mp there
  by_cases here : i = k.file
  · simp only [here, if_true, true_and]
    split
    · exact UInt64.le_refl _
    · rename_i within
      exact UInt64.not_lt.mp within
  · have other : ¬ (k.file = i ∧ size < k.pos) := fun both => here both.1.symm
    rw [if_neg other, if_neg here]
    exact kept.bounded strict k member f at_

theorem Kept.truncateName (name : Bytes) (size : Int64) :
    (fs.truncateName name size).2.Kept names := by
  unfold Files.truncateName
  split
  · exact kept
  · dsimp only
    split
    · exact kept.truncated _ _
    · split
      · exact kept
      · exact kept.truncated _ _

theorem Kept.truncateFd (fd : Int32) (size : Int64) : (fs.truncateFd fd size).2.Kept names := by
  unfold Files.truncateFd
  split
  · exact kept
  · exact kept.truncateName _ _

/-! ### Mounting -/

/-- A new file behind the others. -/
theorem Kept.mounted {new : MountedFile} (fresh : ¬ (fs.byName new.name).isSome)
    (text : 0 ∉ new.name) : Kept { fs with files := fs.files ++ [new] } names := by
  have place : ∀ {k g}, fs.files[k]? = some g → (fs.files ++ [new])[k]? = some g := fun at_ => by
    rw [List.getElem?_append_left (List.getElem?_eq_some_iff.mp at_).1]
    exact at_
  have steady : Steady fs { fs with files := fs.files ++ [new] } id := by
    refine ⟨(List.map_id _).symm, fun _ => rfl, fun h _ f at_ => ⟨f, place at_, rfl⟩,
      fun _ _ _ _ same => same, ?_, fun f member => ?_⟩
    · rw [List.map_append, List.nodup_append]
      refine ⟨kept.sound.mounts, List.nodup_singleton _, fun a inside b last => ?_⟩
      rw [List.mem_singleton.mp last]
      rintro rfl
      obtain ⟨f, member, named⟩ := List.mem_map.mp inside
      refine fresh (List.find?_isSome.mpr ⟨f, member, ?_⟩)
      simpa using named
    · rcases List.mem_append.mp member with inside | last
      · exact kept.sound.text f inside
      · rw [List.mem_singleton.mp last]
        exact text
  refine kept.steady steady fun strict k member q there => ?_
  obtain ⟨f, at_, -⟩ := kept.sound.file k member
  change (fs.files ++ [new])[k.file]? = some q at there
  rw [place at_] at there
  exact kept.bounded strict k member q (at_.trans there)

theorem Kept.mount (text : 0 ∉ name) (data : Bytes) (writable : Bool) :
    (fs.mount name data writable).2.Kept names := by
  unfold Files.mount
  split
  · exact kept
  · rename_i fresh
    exact kept.mounted fresh text

theorem Kept.mountPath (text : 0 ∉ name) (content : Option Bytes) :
    (fs.mountPath name content).2.Kept names := by
  unfold Files.mountPath
  split
  · exact kept
  · rename_i fresh
    split
    · exact kept
    · exact kept.mounted fresh text

theorem Kept.mountPathWritable (text : 0 ∉ name) (made : Bool) :
    (fs.mountPathWritable name made).2.Kept names := by
  unfold Files.mountPathWritable
  split
  · exact kept
  · rename_i fresh
    split
    · exact kept
    · exact kept.mounted fresh text

/-- The files behind the one that goes move down, and the handles on them with them. -/
theorem Kept.unmount (name : Bytes) : (fs.unmount name).2.Kept names := by
  unfold Files.unmount
  split
  · exact kept
  · dsimp only
    split
    · exact kept
    · split
      · exact kept
      · rename_i shut
        generalize fs.fileIndex name = i at shut
        have other : ∀ h ∈ fs.handles, h.file ≠ i := fun h member same => shut (by
          simp only [Files.fileIsOpen, List.any_eq_true, beq_iff_eq]
          exact ⟨h, member, same⟩)
        have index : ∀ h : OpenHandle, (if i < h.file then
            { h with file := h.file - 1 } else h).file =
            if i < h.file then h.file - 1 else h.file := fun h => by split <;> rfl
        have place : ∀ h ∈ fs.handles,
            (fs.files.eraseIdx i)[(if i < h.file then { h with file := h.file - 1 } else h).file]? =
              fs.files[h.file]? := fun h member => by
          have apart := other h member
          rw [index, List.getElem?_eraseIdx]
          split
          · rw [if_neg (by omega)]
            congr 1
            omega
          · rw [if_pos (by omega)]
        have steady : Steady fs { fs with
            files := fs.files.eraseIdx i
            handles := fs.handles.map fun h => if i < h.file then
            { h with file := h.file - 1 } else h }
            (fun h => if i < h.file then { h with file := h.file - 1 } else h) := by
          refine ⟨rfl, fun h => ?_, fun h member f at_ => ?_, fun h left k right same => ?_, ?_, ?_⟩
          · split <;> rfl
          · exact ⟨f, (place h member).trans at_, rfl⟩
          · have first := other h left
            have second := other k right
            rw [index, index] at same
            split at same <;> split at same <;> omega
          · exact kept.sound.mounts.sublist ((List.eraseIdx_sublist _ _).map _)
          · exact fun f member => kept.sound.text f (List.mem_of_mem_eraseIdx member)
        refine kept.steady steady fun strict k' among q there => ?_
        obtain ⟨k, member, rfl⟩ := List.mem_map.mp among
        rw [place k member] at there
        have before := kept.bounded strict k member q there
        split
        · exact before
        · exact before

/-! ### Opening and closing -/

/-- One more descriptor, the lowest there is. -/
theorem Kept.handleAdd (small : fs.handles.length < 2 ^ 31) (at_ : fs.files[i]? = some f)
    (alone : f.hasBytes = true → f.writable = true → ∀ h ∈ fs.handles, h.file ≠ i)
    (inside : fs.linuxAnswers = false → pos ≤ f.len) :
    (fs.handleAdd i pos).2.Kept (Function.update names (fs.handleAdd i pos).1 (some f.name)) := by
  have low := handleAdd_lowest small i pos
  obtain ⟨sound, single, bounded⟩ := kept
  unfold Files.handleAdd at low ⊢
  dsimp only at low ⊢
  generalize fs.lowestFree fs.handles.length 0 = new at low ⊢
  have split_ : ∀ {h}, h ∈ fs.handles ++ [⟨new, i, pos⟩] →
      h ∈ fs.handles ∨ h = ⟨new, i, pos⟩ := fun member => by simpa using member
  refine ⟨⟨?_, ?_, ?_, ?_, sound.mounts, sound.text⟩, ?_, ?_⟩
  · rw [List.map_append, List.nodup_append]
    refine ⟨sound.fds, List.nodup_singleton _, fun a member b last => ?_⟩
    rw [List.mem_singleton.mp last]
    obtain ⟨h, among, rfl⟩ := List.mem_map.mp member
    exact low.free h among
  · intro h member
    rcases split_ member with old | rfl
    · exact sound.nonneg h old
    · exact low.nonneg
  · intro h member
    rcases split_ member with old | rfl
    · rw [Function.update_of_ne (low.free h old)]
      exact sound.file h old
    · exact ⟨f, at_, Function.update_self ..⟩
  · intro fd shut
    have other : fd ≠ new := fun same => shut ⟨new, i, pos⟩ (by simp) same.symm
    rw [Function.update_of_ne other]
    exact sound.shut fd fun h member => shut h (List.mem_append_left _ member)
  · intro h left k right same q there bytes writable
    rcases split_ left with old | rfl <;> rcases split_ right with old' | rfl
    · exact single h old k old' same q there bytes writable
    · change fs.files[h.file]? = some q at there
      have same : h.file = i := same
      rw [same, at_] at there
      cases there
      exact absurd same (alone bytes writable h old)
    · change fs.files[i]? = some q at there
      have same : i = k.file := same
      rw [at_] at there
      cases there
      exact absurd same.symm (alone bytes writable k old')
    · rfl
  · intro strict h member q there
    rcases split_ member with old | rfl
    · exact bounded strict h old q there
    · change fs.files[i]? = some q at there
      rw [at_] at there
      cases there
      exact inside strict

theorem Kept.open_ (small : fs.handles.length < 2 ^ 31) (name : Bytes) (flags : UInt32) :
    (∃ e, fs.open_ name flags = (.error e, fs)) ∨ ∃ new fs', fs.open_ name flags = (.ok new, fs') ∧
      fs.Lowest new ∧ fs'.Kept (Function.update names new (some name)) := by
  unfold Files.open_
  split
  · exact .inl ⟨_, rfl⟩
  · rename_i f found
    obtain ⟨at_, named⟩ := byName_eq found
    dsimp only
    split
    · exact .inl ⟨_, rfl⟩
    · rename_i shut
      split
      · exact .inl ⟨_, rfl⟩
      · split
        · exact .inl ⟨_, rfl⟩
        · refine .inr ⟨_, _, rfl, handleAdd_lowest small _ _, ?_⟩
          rw [← named]
          rw [← named] at at_ shut
          refine kept.handleAdd small at_ (fun bytes writable h member same => shut ?_)
            fun _ => UInt64.zero_le
          simp only [bytes, writable, Bool.true_and, Files.fileIsOpen, List.any_eq_true, beq_iff_eq]
          exact ⟨h, member, same⟩

theorem Kept.dup (small : fs.handles.length < 2 ^ 31) (fd : Int32) :
    (∃ e, fs.dup fd = (.error e, fs)) ∨ ∃ new fs', fs.dup fd = (.ok new, fs') ∧
      fs.Lowest new ∧ fs'.Kept (Function.update names new (names fd)) := by
  unfold Files.dup
  split
  · exact .inl ⟨_, rfl⟩
  · rename_i h f opened
    split
    · exact .inl ⟨_, rfl⟩
    · rename_i locked
      obtain ⟨member, rfl, at_⟩ := kept.sound.opened.mp opened
      obtain ⟨q, there, named⟩ := kept.sound.file h member
      rw [at_] at there
      cases there
      refine .inr ⟨_, _, rfl, handleAdd_lowest small h.file h.pos, ?_⟩
      rw [named]
      refine kept.handleAdd small at_ (fun bytes writable _ _ _ => locked ?_)
        fun strict => kept.bounded strict h member f at_
      rw [bytes, writable]
      rfl

end

/-- With the last handle in the place of the one closed, the others are there. -/
theorem Sound.close_perm (sound : fs.Sound names) (found : fs.handleByFd fd = some h)
    (ends : fs.handles.getLast? = some last) :
    ((fs.handles.set (fs.handleIndex fd) last).dropLast).Perm
      (fs.handles.filter fun h => h.fd != fd) := by
  obtain ⟨member, here⟩ := sound.handleByFd.mp found
  rw [← eraseIdx_findIdx fd sound.fds]
  refine set_last_perm ends (List.findIdx_lt_length_of_exists ⟨h, member, ?_⟩)
  simpa using here

theorem Sound.mem_close (sound : fs.Sound names) (found : fs.handleByFd fd = some h)
    (ends : fs.handles.getLast? = some last) (k : OpenHandle) :
    k ∈ (fs.handles.set (fs.handleIndex fd) last).dropLast ↔ k ∈ fs.handles ∧ k.fd ≠ fd := by
  rw [(sound.close_perm found ends).mem_iff, List.mem_filter]
  simp

/-- A close takes one descriptor away, whatever becomes of the places. -/
theorem Kept.close (kept : fs.Kept names) (fd : Int32) :
    fs.close fd = (.error .ebadf, fs) ∨ ∃ fs', fs.close fd = (.ok (), fs') ∧
      fs'.Kept (Function.update names fd none) := by
  unfold Files.close
  split
  · rename_i h last found last_
    refine .inr ⟨_, rfl, ?_⟩
    have gone := kept.sound.close_perm found last_
    have mem := kept.sound.mem_close found last_
    obtain ⟨sound, single, bounded⟩ := kept
    refine ⟨⟨?_, ?_, ?_, ?_, sound.mounts, sound.text⟩, ?_, ?_⟩
    · refine ((gone.map OpenHandle.fd).nodup_iff).mpr ?_
      exact sound.fds.sublist (List.filter_sublist.map _)
    · exact fun k among => sound.nonneg k ((mem k).mp among).1
    · intro k among
      obtain ⟨inside, other⟩ := (mem k).mp among
      rw [Function.update_of_ne other]
      exact sound.file k inside
    · intro x shut
      by_cases same : x = fd
      · rw [same, Function.update_self]
      · rw [Function.update_of_ne same]
        refine sound.shut x fun k inside at_ => shut k ((mem k).mpr ⟨inside, ?_⟩) at_
        rw [at_]
        exact same
    · exact fun h left k right => single h ((mem h).mp left).1 k ((mem k).mp right).1
    · exact fun strict k among => bounded strict k ((mem k).mp among).1
  · exact .inl rfl

end Operations

end Files

end MiniBox

