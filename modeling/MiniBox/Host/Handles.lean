import MiniBox.Host.Descriptors

/-!
# The open files in a state

`mb_fs_save_handles` looks through the table once for each record, for the lowest
descriptor above the last one.  `Files.inOrder` is the order it finds, and the table on a
stream is one record after the other in that order.

`mb_fs_load_handles` has limits the writer does not have: 65536 descriptors, names of fewer
than 4096 bytes, and positions up to the end of the file when they may not go past it.  A
table within them is read back as it was.
-/

namespace MiniBox

open Lib

namespace Files

/-! ## One record -/

/-- A record is read back if its name fits the reader's. -/
theorem HandleRecord.read_encode {r : HandleRecord} (word : r.name.length < 2 ^ 32)
    (text : 0 ∉ r.name) (rest : Bytes) :
    read (r.encode ++ rest) =
      if r.name.length < 4096 then some (r, rest) else none := by
  have len : (UInt32.ofNat r.name.length).toNat = r.name.length := UInt32.toNat_ofNat_of_lt' word
  have whole : r.name.takeWhile (· ≠ 0) = r.name := by
    refine List.takeWhile_eq_self_iff.mpr fun b member => ?_
    simp only [ne_eq, decide_not, Bool.not_eq_eq_eq_not, Bool.not_true, decide_eq_false_iff_not]
    rintro rfl
    exact text member
  have long : (4096 ≤ UInt32.ofNat r.name.length) ↔ ¬ r.name.length < 4096 := by
    rw [UInt32.le_iff_toNat_le, len, Nat.not_lt]
    rfl
  unfold read encode
  simp only [List.append_assoc, rd32_encode32, rd64_encode64, Option.bind_eq_bind, Option.bind_some,
    len, List.take_length, long]
  by_cases short : r.name.length < 4096
  · simp only [short, not_true_eq_false, if_false, if_true, rd_append rfl, Option.bind_some, whole]
    rfl
  · simp only [short, not_false_eq_true, if_false, if_true]

/-- A name that was read fits the reader's. -/
theorem HandleRecord.read_short {stream rest : Bytes} {r : HandleRecord}
    (read : HandleRecord.read stream = some (r, rest)) : r.name.length < 4096 := by
  unfold HandleRecord.read at read
  simp only [Option.bind_eq_bind, Option.bind_eq_some_iff] at read
  obtain ⟨fd, -, pos, -, len, -, read⟩ := read
  split at read
  · cases read
  · rename_i short
    simp only [Option.bind_eq_some_iff] at read
    obtain ⟨⟨name, rest'⟩, taken, same⟩ := read
    cases same
    obtain ⟨-, length⟩ := rd_eq_some.mp taken
    have fits := UInt32.lt_iff_toNat_lt.mp (UInt32.not_le.mp short)
    have prefix_ := (List.takeWhile_prefix (p := fun b : UInt8 => decide (b ≠ 0))
        (l := name)).length_le
    have limit : (4096 : UInt32).toNat = 4096 := rfl
    show (name.takeWhile _).length < 4096
    omega

theorem skipRecords_encode (rest : Bytes) : ∀ {records : List HandleRecord},
    (∀ r ∈ records, r.name.length < 2 ^ 32 ∧ 0 ∉ r.name) →
    skipRecords records.length (records.flatMap HandleRecord.encode ++ rest) =
      if ∀ r ∈ records, r.name.length < 4096 then some rest else none
  | [], _ => by simp [skipRecords]
  | r :: records, fine => by
    have first := fine r (by simp)
    rw [List.length_cons, List.flatMap_cons, List.append_assoc, skipRecords,
      HandleRecord.read_encode first.1 first.2]
    by_cases short : r.name.length < 4096
    · rw [if_pos short]
      simp only [Option.bind_eq_bind, Option.bind_some]
      rw [skipRecords_encode rest fun q member => fine q (List.mem_cons_of_mem r member)]
      simp [short]
    · rw [if_neg short]
      simp [short]

/-! ## Records taken -/

/-- The handles of records, all of whose files are mounted. -/
def loadRecords (fs : Files) : List HandleRecord → Option (List OpenHandle)
  | [] => some []
  | r :: records => do
      let h ← fs.handleOf r
      let handles ← loadRecords fs records
      some (h :: handles)

theorem loadLoop_encode (fs : Files) (rest : Bytes) : ∀ {records : List HandleRecord}
    {last : Int32},
    (∀ r ∈ records, r.name.length < 2 ^ 32 ∧ 0 ∉ r.name) → (∀ r ∈ records, last < r.fd) →
    Sorted HandleRecord.fd records →
    fs.loadLoop records.length last (records.flatMap HandleRecord.encode ++ rest) =
      if ∀ r ∈ records, r.name.length < 4096 then some (fs.loadRecords records, rest) else none
  | [], last, _, _, _ => by simp [loadLoop, loadRecords]
  | r :: records, last, fine, above, sorted => by
    have first := fine r (by simp)
    have others : ∀ q ∈ records, q.name.length < 2 ^ 32 ∧ 0 ∉ q.name :=
      fun q member => fine q (List.mem_cons_of_mem r member)
    obtain ⟨next, sorted⟩ := List.pairwise_cons.mp sorted
    have later := above r (by simp)
    rw [List.length_cons, List.flatMap_cons, List.append_assoc, loadLoop,
      HandleRecord.read_encode first.1 first.2]
    by_cases short : r.name.length < 4096
    · rw [if_pos short]
      simp only [Option.bind_eq_bind, Option.bind_some, Int32.not_le.mpr later, if_false,
        List.forall_mem_cons, short, true_and]
      cases made : fs.handleOf r with
      | none =>
        simp only [loadRecords, made, Option.bind_eq_bind, Option.bind_none]
        rw [skipRecords_encode rest others]
        split <;> rfl
      | some h =>
        simp only [loadRecords, made, Option.bind_eq_bind, Option.bind_some]
        rw [loadLoop_encode fs rest others next sorted]
        split
        · cases fs.loadRecords records <;> rfl
        · rfl
    · rw [if_neg short]
      simp [short]

/-! ## The order of a save -/

/-- The handles by descriptor. -/
def inOrder (fs : Files) : List OpenHandle := fs.handles.mergeSort fun h k => h.fd ≤ k.fd

/-- What is saved of a handle. -/
def record (fs : Files) (h : OpenHandle) : HandleRecord :=
  ⟨h.fd, h.pos, ((fs.files[h.file]?).map MountedFile.name).getD []⟩

def records (fs : Files) : List HandleRecord := fs.inOrder.map fs.record

section Order

variable {fs : Files} {names : Int32 → Option Bytes}

theorem inOrder_perm (fs : Files) : fs.inOrder.Perm fs.handles := List.mergeSort_perm _ _

theorem Sound.inOrder_sorted (sound : fs.Sound names) : Sorted OpenHandle.fd fs.inOrder := by
  have ordered : fs.inOrder.Pairwise fun h k => decide (h.fd ≤ k.fd) = true :=
    List.pairwise_mergeSort
      (fun a b c first second => by
        simp only [decide_eq_true_eq] at *
        exact Int32.le_trans first second)
      (fun a b => by
        simp only [Bool.or_eq_true, decide_eq_true_eq]
        exact Int32.le_total a.fd b.fd) _
  have distinct : fs.inOrder.Pairwise fun h k => h.fd ≠ k.fd := by
    rw [← List.pairwise_map, ← List.nodup_iff_pairwise_ne]
    exact ((fs.inOrder_perm.map OpenHandle.fd).nodup_iff).mpr sound.fds
  refine (ordered.and distinct).imp fun both => ?_
  exact Int32.lt_of_le_of_ne (by simpa using both.1) both.2

/-- The search for the next descriptor, from what it has found so far. -/
theorem nextHandle_foldl {last : Int32} {h : OpenHandle} (above : last < h.fd) :
    ∀ {handles : List OpenHandle} {best : Option OpenHandle},
      (∀ k ∈ handles, last < k.fd → k = h ∨ h.fd < k.fd) → (∀ k ∈ best, k = h ∨ h.fd < k.fd) →
      h ∈ handles ∨ best = some h →
      handles.foldl (fun next k => if last < k.fd ∧
        (next.all fun n => k.fd < n.fd) then some k else next)
        best = some h
  | [], best, _, _, found => by simpa using found
  | k :: handles, best, least, known, found => by
    rw [List.foldl_cons]
    have first := least k (by simp)
    have others : ∀ q ∈ handles, last < q.fd → q = h ∨ h.fd < q.fd :=
      fun q member => least q (List.mem_cons_of_mem k member)
    split
    · rename_i taken
      refine nextHandle_foldl above others (fun q same => ?_) ?_
      · cases same
        exact first taken.1
      · rcases first taken.1 with rfl | later
        · exact .inr rfl
        · refine .inl ?_
          rcases found with member | rfl
          · rcases List.mem_cons.mp member with rfl | inside
            · exact (Int32.lt_irrefl later).elim
            · exact inside
          · have less : k.fd < h.fd := by simpa using taken.2
            exact absurd later (Int32.lt_asymm less)
    · rename_i passed
      refine nextHandle_foldl above others known ?_
      rcases found with member | same
      · rcases List.mem_cons.mp member with rfl | inside
        · cases best with
          | none => exact absurd ⟨above, rfl⟩ passed
          | some n =>
            rcases known n rfl with rfl | later
            · exact .inr rfl
            · exact absurd ⟨above, by simpa using later⟩ passed
        · exact .inl inside
      · exact .inr same

theorem nextHandle_eq {last : Int32} {h : OpenHandle} (member : h ∈ fs.handles)
    (above : last < h.fd) (least : ∀ k ∈ fs.handles, last < k.fd → k = h ∨ h.fd < k.fd) :
    fs.nextHandle last = some h :=
  nextHandle_foldl above least (fun _ none_ => by cases none_) (.inl member)

theorem Sound.saveLoop (sound : fs.Sound names) : ∀ (more before : List OpenHandle) (last : Int32),
    fs.inOrder = before ++ more → (∀ h ∈ before, h.fd ≤ last) → (∀ h ∈ more, last < h.fd) →
    fs.saveLoop more.length last = some ((more.map fs.record).flatMap HandleRecord.encode)
  | [], before, last, _, _, _ => rfl
  | h :: more, before, last, all, past, above => by
    have sorted := sound.inOrder_sorted
    rw [all, Sorted, List.pairwise_append, List.pairwise_cons] at sorted
    have member : h ∈ fs.handles := by
      rw [← fs.inOrder_perm.mem_iff, all]
      simp
    have next : fs.nextHandle last = some h := by
      refine nextHandle_eq member (above h (by simp)) fun k among late => ?_
      rw [← fs.inOrder_perm.mem_iff, all, List.mem_append, List.mem_cons] at among
      rcases among with early | rfl | behind
      · exact absurd (past k early) (Int32.not_le.mpr late)
      · exact .inl rfl
      · exact .inr (sorted.2.1.1 k behind)
    obtain ⟨f, at_, -⟩ := sound.file h member
    have rest := sound.saveLoop more (before ++ [h]) h.fd
      (by rw [all]; simp) ?_ sorted.2.1.1
    · rw [List.length_cons, Files.saveLoop, next]
      simp only [Option.bind_eq_bind, Option.bind_some, at_, rest, List.map_cons, List.flatMap_cons,
        record, Option.map_some, Option.getD_some]
    · intro k among
      rcases List.mem_append.mp among with early | last_
      · exact Int32.le_of_lt (sorted.2.2 k early h (by simp))
      · rw [List.mem_singleton.mp last_]
        exact Int32.le_refl _

/-- There are no more descriptors than there are numbers for them. -/
theorem Sound.few (sound : fs.Sound names) : fs.handles.length ≤ 2 ^ 31 := by
  have numbers : (fs.handles.map fun h => h.fd.toInt.toNat).Nodup := by
    refine List.Nodup.map_on (fun h left k right same => sound.unique left right ?_)
      (List.Nodup.of_map _ sound.fds)
    have low := Int32.le_iff_toInt_le.mp (sound.nonneg h left)
    have low' := Int32.le_iff_toInt_le.mp (sound.nonneg k right)
    have zero : (0 : Int32).toInt = 0 := rfl
    exact Int32.toInt_inj.mp (by omega)
  have bound := nodup_length_le numbers (n := 2 ^ 31) fun x member => by
    obtain ⟨h, -, rfl⟩ := List.mem_map.mp member
    have high := h.fd.toInt_lt
    omega
  rwa [List.length_map] at bound

theorem records_length (fs : Files) : fs.records.length = fs.handles.length := by
  rw [records, List.length_map, fs.inOrder_perm.length_eq]

theorem Sound.saveHandles (sound : fs.Sound names) : fs.saveHandles =
    some (encode32 (UInt32.ofNat fs.handles.length) ++ fs.records.flatMap HandleRecord.encode) := by
  have few := sound.few
  have count : (UInt32.ofNat fs.handles.length).toNat = fs.inOrder.length := by
    rw [fs.inOrder_perm.length_eq]
    exact UInt32.toNat_ofNat_of_lt' (Nat.lt_of_le_of_lt few (by decide))
  have saved := sound.saveLoop fs.inOrder [] (-1) rfl
    (fun h none_ => by cases none_) fun h member => by
      have low := sound.nonneg h (fs.inOrder_perm.mem_iff.mp member)
      exact Int32.lt_of_lt_of_le (by decide) low
  unfold Files.saveHandles
  simp only [count, saved, Option.bind_eq_bind, Option.bind_some]
  rfl

/-- The records of a table: its descriptors, in order, each with a name. -/
theorem Sound.records (sound : fs.Sound names) : Sorted HandleRecord.fd fs.records ∧
      ∀ r, r ∈ fs.records ↔ ∃ h ∈ fs.handles, r.fd = h.fd ∧ r.pos = h.pos ∧ names h.fd =
      some r.name := by
  have named : ∀ h ∈ fs.handles, names h.fd = some (fs.record h).name := fun h member => by
    obtain ⟨f, at_, named⟩ := sound.file h member
    rw [named, record, at_]
    rfl
  constructor
  · rw [Sorted, Files.records, List.pairwise_map]
    exact sound.inOrder_sorted
  · intro r
    rw [Files.records, List.mem_map]
    constructor
    · rintro ⟨h, member, rfl⟩
      have inside := fs.inOrder_perm.mem_iff.mp member
      exact ⟨h, inside, rfl, rfl, named h inside⟩
    · rintro ⟨h, inside, fd, pos, name⟩
      refine ⟨h, fs.inOrder_perm.mem_iff.mpr inside, ?_⟩
      rw [named h inside] at name
      obtain ⟨fd', pos', name'⟩ := r
      simp only [Option.some.injEq] at name fd pos
      subst fd pos name
      rfl

end Order

/-! ## A saved table loaded -/

section Load

variable {fs saved : Files} {names : Int32 → Option Bytes}

/-- A name that a length of one word can tell. -/
def Telling (names : Int32 → Option Bytes) : Prop :=
  ∀ fd name, names fd = some name → name.length < 2 ^ 32

/-- What the reader takes. -/
def Fits (saved : Files) : Prop :=
  saved.handles.length ≤ 65536 ∧ ∀ r ∈ saved.records, r.name.length < 4096

instance (saved : Files) : Decidable saved.Fits := inferInstanceAs (Decidable (_ ∧ _))

theorem Sound.loadHandles (sound : saved.Sound names) (telling : Telling names) {bytes : Bytes}
    (wrote : saved.saveHandles = some bytes) (fs : Files) (rest : Bytes) :
    fs.loadHandles (bytes ++ rest) =
      if saved.Fits then
        match fs.loadRecords saved.records with
        | none => (.unknown rest, fs)
        | some handles => (.loaded rest, { fs with handles })
      else (.malformed, fs) := by
  rw [sound.saveHandles] at wrote
  cases wrote
  have few := sound.few
  obtain ⟨sorted, mem⟩ := sound.records
  have count : (UInt32.ofNat saved.handles.length).toNat = saved.handles.length :=
    UInt32.toNat_ofNat_of_lt' (Nat.lt_of_le_of_lt few (by decide))
  have many : (65536 < UInt32.ofNat saved.handles.length) ↔ ¬ saved.handles.length ≤ 65536 := by
    rw [UInt32.lt_iff_toNat_lt, count, Nat.not_le]
    rfl
  have fine : ∀ r ∈ saved.records, r.name.length < 2 ^ 32 ∧ 0 ∉ r.name := fun r member => by
    obtain ⟨h, inside, -, -, named⟩ := (mem r).mp member
    refine ⟨telling h.fd _ named, ?_⟩
    obtain ⟨f, at_, same⟩ := sound.file h inside
    rw [named] at same
    rw [Option.some.inj same]
    exact sound.text f (List.mem_of_getElem? at_)
  have above : ∀ r ∈ saved.records, (-1 : Int32) < r.fd := fun r member => by
    obtain ⟨h, inside, fd, -⟩ := (mem r).mp member
    rw [fd]
    exact Int32.lt_of_lt_of_le (by decide) (sound.nonneg h inside)
  have read := loadLoop_encode fs rest fine above sorted
  rw [records_length] at read
  rw [List.append_assoc, Files.loadHandles, rd32_encode32]
  simp only [many, count, read, Fits]
  by_cases room : saved.handles.length ≤ 65536
  · simp only [room, not_true_eq_false, if_false, true_and]
    by_cases short : ∀ r ∈ saved.records, r.name.length < 4096
    · simp only [if_pos short]
      cases fs.loadRecords saved.records <;> rfl
    · simp only [if_neg short]
  · simp only [room, not_false_eq_true, if_true, false_and, if_false]

/-- What a record becomes. -/
theorem handleOf_eq {r : HandleRecord} {h : OpenHandle} (made : fs.handleOf r = some h) :
    ∃ f, fs.files[h.file]? = some f ∧ f.name = r.name ∧ h.fd = r.fd ∧
      h.pos = if r.pos < f.len ∨ fs.linuxAnswers then r.pos else f.len := by
  obtain ⟨f, found, rfl⟩ := Option.map_eq_some_iff.mp made
  obtain ⟨at_, named⟩ := byName_eq found
  exact ⟨f, at_, named, rfl, rfl⟩

theorem loadRecords_mem : ∀ {records : List HandleRecord} {handles : List OpenHandle},
    fs.loadRecords records = some handles →
    handles.map OpenHandle.fd = records.map HandleRecord.fd ∧
      (∀ h ∈ handles, ∃ r ∈ records, fs.handleOf r = some h) ∧
      ∀ r ∈ records, ∃ h ∈ handles, fs.handleOf r = some h
  | [], _, loaded => by
    cases loaded
    simp
  | r :: records, _, loaded => by
    rw [loadRecords] at loaded
    simp only [Option.bind_eq_bind, Option.bind_eq_some_iff, Option.some.injEq] at loaded
    obtain ⟨h, made, handles, others, rfl⟩ := loaded
    obtain ⟨fds, left, right⟩ := loadRecords_mem others
    obtain ⟨-, -, -, fd, -⟩ := handleOf_eq made
    refine ⟨by rw [List.map_cons, List.map_cons, fd, fds], fun k member => ?_, fun q member => ?_⟩
    · rcases List.mem_cons.mp member with rfl | inside
      · exact ⟨r, by simp, made⟩
      · obtain ⟨q, among, from_⟩ := left k inside
        exact ⟨q, List.mem_cons_of_mem r among, from_⟩
    · rcases List.mem_cons.mp member with rfl | inside
      · exact ⟨h, by simp, made⟩
      · obtain ⟨k, among, to_⟩ := right q inside
        exact ⟨k, List.mem_cons_of_mem h among, to_⟩

theorem loadRecords_some : ∀ {records : List HandleRecord},
    (∀ r ∈ records, ∃ h, fs.handleOf r = some h) → ∃ handles, fs.loadRecords records = some handles
  | [], _ => ⟨[], rfl⟩
  | r :: records, all => by
    obtain ⟨h, made⟩ := all r (by simp)
    obtain ⟨handles, others⟩ :=
      loadRecords_some fun q member => all q (List.mem_cons_of_mem r member)
    exact ⟨h :: handles, by simp [loadRecords, made, others]⟩

/-- A loaded table has the saved descriptors, on the files of those names. -/
theorem Sound.loaded (source : saved.Sound names) (mounts : (fs.files.map MountedFile.name).Nodup)
    (text : ∀ f ∈ fs.files, 0 ∉ f.name) {handles : List OpenHandle}
    (loaded : fs.loadRecords saved.records = some handles) :
    Sound { fs with handles } names := by
  obtain ⟨sorted, mem⟩ := source.records
  obtain ⟨fds, left, right⟩ := loadRecords_mem loaded
  have from_ : ∀ h ∈ handles, ∃ k ∈ saved.handles, h.fd = k.fd ∧
      ∃ f, fs.files[h.file]? = some f ∧ names k.fd = some f.name := fun h member => by
    obtain ⟨r, among, made⟩ := left h member
    obtain ⟨k, inside, fd, -, named⟩ := (mem r).mp among
    obtain ⟨f, at_, name, same, -⟩ := handleOf_eq made
    exact ⟨k, inside, same.trans fd, f, at_, by rw [named, name]⟩
  refine ⟨?_, ?_, ?_, ?_, mounts, text⟩
  · rw [fds]
    exact sorted.nodup
  · intro h member
    obtain ⟨k, inside, fd, -⟩ := from_ h member
    rw [fd]
    exact source.nonneg k inside
  · intro h member
    obtain ⟨k, -, fd, f, at_, named⟩ := from_ h member
    exact ⟨f, at_, by rw [fd]; exact named⟩
  · intro fd shut
    refine source.shut fd fun k inside here => ?_
    obtain ⟨f, -, named⟩ := source.file k inside
    obtain ⟨h, member, made⟩ :=
      right ⟨k.fd, k.pos, f.name⟩ ((mem _).mpr ⟨k, inside, rfl, rfl, named⟩)
    obtain ⟨-, -, -, same, -⟩ := handleOf_eq made
    exact shut h member (same.trans here)

/-- No file that can be written here is named twice. -/
def Once (fs : Files) (names : Int32 → Option Bytes) : Prop :=
  ∀ f ∈ fs.files, f.hasBytes = true → f.writable = true → ∀ fd fd',
    names fd = some f.name → names fd' = some f.name → fd = fd'

theorem Kept.loaded {names' : Int32 → Option Bytes} (kept : fs.Kept names')
    (source : saved.Sound names) (once : fs.Once names) {handles : List OpenHandle}
    (loaded : fs.loadRecords saved.records = some handles) :
    Kept { fs with handles } names := by
  have sound := source.loaded kept.sound.mounts kept.sound.text loaded
  refine ⟨sound, fun h left k right same f at_ bytes writable => ?_, fun strict h member f at_ =>
    ?_⟩
  · obtain ⟨q, there, named⟩ := sound.file h left
    obtain ⟨p, here, named'⟩ := sound.file k right
    rw [← same, at_] at here
    rw [at_] at there
    cases there
    cases here
    exact sound.unique left right
      (once f (List.mem_of_getElem? at_) bytes writable h.fd k.fd named named')
  · obtain ⟨r, -, made⟩ := (loadRecords_mem loaded).2.1 h member
    obtain ⟨q, there, -, -, pos⟩ := handleOf_eq made
    change fs.files[h.file]? = some f at at_
    rw [at_] at there
    cases there
    have strict : fs.linuxAnswers = false := strict
    rw [pos, strict]
    simp only [Bool.false_eq_true, or_false]
    split
    · rename_i less
      exact UInt64.le_of_lt less
    · exact UInt64.le_refl _

end Load

end Files

end MiniBox
