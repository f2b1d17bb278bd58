import MiniBox.Host.Plain

/-!
# The calls on files are those on byte sequences

For each call: what it does to the table is what `Plain.Does` says of the table's byte
sequences.  `Kept.does_open` and those after it are about tables whose files are their bytes, and
the next module cuts each buffer to its file.
-/

namespace MiniBox

open Lib Files

/-! ## What the calls do -/

/-- What is told of a call. -/
def FileReply.of {α : Type} (ok : α → FileReply) : Except Errno α → FileReply
  | .ok a => ok a
  | .error e => .refused e

/-- Lengths and positions are signed numbers of 64 bits. -/
structure Plain.Small (p : Plain) : Prop where
  len : ∀ i, (p.file i).len < 2 ^ 63
  pos : ∀ fd c, p.cursor fd = some c → c.pos < 2 ^ 63

namespace Files

/-- Every regular file has the bytes its length says. -/
def Exact (fs : Files) : Prop := ∀ f ∈ fs.files, f.kind = .regular → f.data.length = f.len.toNat

section Calls

variable {fs : Files} {names : Int32 → Option Bytes} {fd : Int32} {f : MountedFile} {h : OpenHandle}
  {i j : Nat} {name buf : Bytes} {newpos offset : Int64} {to_ : Int}

theorem Sound.place_unique (sound : fs.Sound names) {f g : MountedFile}
    (left : fs.files[i]? = some f) (right : fs.files[j]? = some g) (same : f.name = g.name) :
    i = j := by
  have inside : i < (fs.files.map MountedFile.name).length := by
    rw [List.length_map]
    exact (List.getElem?_eq_some_iff.mp left).1
  refine (List.getElem?_inj inside sound.mounts).mp ?_
  rw [List.getElem?_map, List.getElem?_map, left, right]
  exact congrArg some same

theorem refuses_shut {P : Plain.Cursor → Prop} (shut : fs.opened fd = none) :
    ∀ c, fs.plain.cursor fd = some c → P c := fun c at_ => by
  rw [plain_shut shut] at at_
  cases at_

/-- What is known of a descriptor of a regular file. -/
structure On (fs : Files) (fd : Int32) (h : OpenHandle) (f : MountedFile) : Prop where
  is : f.kind = .regular
  here : fs.files[h.file]? = some f
  cursor : fs.plain.cursor fd = some ⟨h.file, h.pos.toNat⟩
  writable : fs.plain.writable h.file = f.writable

theorem hasBytes_regular (is : f.kind = .regular) : f.hasBytes = true := by
  rw [MountedFile.hasBytes, is]
  rfl

theorem on (opened : fs.opened fd = some (h, f)) (is : f.kind = .regular) : fs.On fd h f :=
  ⟨is, (opened_parts opened).2, plain_cursor opened is, plain_writable (opened_parts opened).2 is⟩

theorem On.only (on : fs.On fd h f) {P : Plain.Cursor → Prop} (only : P ⟨h.file, h.pos.toNat⟩) :
    ∀ c, fs.plain.cursor fd = some c → P c := fun c at_ => by
  rw [on.cursor] at at_
  cases at_
  exact only

/-- A name that is plain is the file found by it. -/
theorem Sound.plain_named (sound : fs.Sound names) (found : fs.byName name = some f)
    (named : fs.plain.name j = some name) : j = fs.fileIndex name := by
  obtain ⟨here, same⟩ := byName_eq found
  obtain ⟨g, there, -, same'⟩ := of_plain_name named
  exact sound.place_unique there here (same'.trans same.symm)

theorem plain_unnamed (none_ : fs.byName name = none) (j : Nat) :
    fs.plain.name j ≠ some name := fun named => by
  obtain ⟨g, there, -, same⟩ := of_plain_name named
  have other := List.find?_eq_none.mp none_ g (List.mem_of_getElem? there)
  exact other (by simpa using same)

theorem new_shut (small : fs.handles.length < 2 ^ 31) (i : Nat) (pos : UInt64) :
    fs.plain.cursor (fs.handleAdd i pos).1 = none := by
  refine plain_shut (Option.eq_none_iff_forall_ne_some.mpr fun o opened => ?_)
  obtain ⟨place, -⟩ := opened_parts opened
  unfold Files.opened at opened
  split at opened
  · cases opened
  next k found =>
    have same : k.fd = (fs.handleAdd i pos).1 := by simpa using List.find?_some found
    exact (handleAdd_lowest small i pos).free k (List.mem_of_find?_eq_some found) same

theorem Kept.does_open (kept : fs.Kept names) (small : fs.handles.length < 2 ^ 31) (flags : UInt32)
    (regular : ∀ f, fs.byName name = some f → f.kind = .regular) :
    Plain.Does fs.plain (.open_ name flags) (.of .descriptor (fs.open_ name flags).1)
      (fs.open_ name flags).2.plain := by
  unfold Files.open_
  cases found : fs.byName name with
  | none => exact .refused _ fun j named => absurd named (plain_unnamed found j)
  | some f =>
    obtain ⟨here, named⟩ := byName_eq found
    have is := regular f found
    have writable := plain_writable here is
    have alone : ∀ j, fs.plain.name j = some name → j = fs.fileIndex name :=
      fun j => kept.sound.plain_named found
    dsimp only
    rw [hasBytes_regular is, is]
    split
    next busy =>
      refine .refused _ fun j on opens => ?_
      rw [alone j on] at opens
      simp only [Bool.true_and, Bool.and_eq_true, fileIsOpen, List.any_eq_true, beq_iff_eq] at busy
      obtain ⟨writes, k, member, same⟩ := busy
      have opened : fs.opened k.fd = some (k, f) :=
        kept.sound.opened.mpr ⟨member, rfl, by rw [same]; exact here⟩
      exact opens.1 (writable.trans writes) _ _ (plain_cursor opened is) same
    next free =>
      split
      next wrong =>
        refine .refused _ fun j on opens => ?_
        obtain ⟨reads, writes, mode, -⟩ := opens.2
        rw [wrong] at mode
        cases mode
      next reads writes mode =>
        split
        next denied =>
          refine .refused _ fun j on opens => ?_
          rw [alone j on] at opens
          obtain ⟨reads', writes', mode', asked⟩ := opens.2
          rw [mode] at mode'
          cases mode'
          rw [writable] at asked
          simp at denied
          rw [asked denied.1] at denied
          cases denied.2
        next allowed =>
          have opens : fs.plain.Opens (fs.fileIndex name) flags := by
            refine ⟨fun writes fd c at_ same => free ?_, reads, writes, mode, fun asks => ?_⟩
            · obtain ⟨k, g, opened, -, rfl⟩ := of_plain_cursor at_
              obtain ⟨member, -, -⟩ := kept.sound.opened.mp opened
              simp only [Bool.true_and, Bool.and_eq_true, fileIsOpen, List.any_eq_true, beq_iff_eq]
              exact ⟨writable.symm.trans writes, k, member, same⟩
            · rw [writable]
              simpa [asks] using allowed
          have does := Plain.Does.open_ (named ▸ plain_name here is) opens
            (new_shut small (fs.fileIndex name) 0)
          have after := plain_handleAdd small here is 0
          rw [UInt64.toNat_zero] at after
          rw [← after] at does
          exact does

theorem does_dup (small : fs.handles.length < 2 ^ 31) (fd : Int32)
    (regular : ∀ h f, fs.opened fd = some (h, f) → f.kind = .regular) :
    Plain.Does fs.plain (.dup fd) (.of .descriptor (fs.dup fd).1) (fs.dup fd).2.plain := by
  unfold dup
  cases opened : fs.opened fd with
  | none => exact .refused _ (refuses_shut opened)
  | some o =>
    obtain ⟨h, f⟩ := o
    have on := on opened (regular h f opened)
    dsimp only
    rw [hasBytes_regular on.is, Bool.true_and]
    split
    next locked => exact .refused _ (on.only (on.writable.trans locked))
    next free =>
      have reads : fs.plain.writable h.file = false := on.writable.trans (by simpa using free)
      have does := Plain.Does.dup on.cursor reads (new_shut small h.file h.pos)
      rw [← plain_handleAdd small on.here on.is h.pos] at does
      exact does

theorem Kept.does_close (kept : fs.Kept names) (fd : Int32)
    (regular : ∀ h f, fs.opened fd = some (h, f) → f.kind = .regular) :
    Plain.Does fs.plain (.close fd) (.of (fun _ => .done) (fs.close fd).1)
    (fs.close fd).2.plain := by
  rcases kept.close fd with shut | ⟨fs', closed, -⟩
  · rw [shut]
    refine .refused _ (plain_shut (Option.eq_none_iff_forall_ne_some.mpr fun o opened => ?_))
    obtain ⟨member, here, -⟩ := kept.sound.opened.mp opened
    have found := kept.sound.handleByFd.mpr ⟨member, here⟩
    have last := List.getLast?_eq_some_getLast (List.ne_nil_of_mem member)
    unfold Files.close at shut
    rw [found, last] at shut
    cases shut
  · have after := plain_close kept closed
    unfold Files.close at closed
    split at closed
    next h last found _ =>
      obtain ⟨member, here⟩ := kept.sound.handleByFd.mp found
      obtain ⟨f, at_, -⟩ := kept.sound.file h member
      have opened := kept.sound.opened.mpr ⟨member, here, at_⟩
      have closes : fs.close fd = (.ok (), fs') := by
        unfold Files.close
        rw [found, ‹fs.handles.getLast? = some last›]
        exact closed
      rw [closes, after]
      exact .close (plain_cursor opened (regular h f opened))
    · cases closed

/-! ### Seeking -/

/-- A sum of 64 bits is not negative when it is one of 63. -/
theorem nonneg_of_bmod (low : -2 ^ 63 ≤ to_) (high : to_ < 2 ^ 64)
    (sum : newpos.toInt = to_.bmod (2 ^ 64)) :
    (0 ≤ newpos ↔ 0 ≤ to_ ∧ to_ < 2 ^ 63) ∧ (0 ≤ newpos → newpos.toInt = to_) := by
  rw [Int64.le_iff_toInt_le, show (0 : Int64).toInt = 0 from rfl]
  rw [Int.bmod_def] at sum
  split at sum
  · omega
  · omega

theorem toNat_toUInt64 {x : Int64} (nonneg : 0 ≤ x) : x.toUInt64.toNat = x.toInt.toNat := by
  have same := toInt_toInt64 x.toUInt64
  have bound := x.toUInt64.toNat_lt
  rw [show x.toUInt64.toInt64 = x from Int64.toInt64_toUInt64 x] at same
  rw [Int64.le_iff_toInt_le, show (0 : Int64).toInt = 0 from rfl] at nonneg
  split at same
  · omega
  · omega

theorem toInt_of_small {x : UInt64} (small : x.toNat < 2 ^ 63) : x.toInt64.toInt = x.toNat := by
  rw [toInt_toInt64, if_pos (by omega)]

theorem plain_len (exact_ : fs.Exact) (here : fs.files[i]? = some f) (is : f.kind = .regular) :
    (fs.plain.file i).len = f.len.toNat := by
  rw [plain_file here is]
  exact exact_ f (List.mem_of_getElem? here) is

section Seek

variable (exact_ : fs.Exact) (small : fs.plain.Small) (on : fs.On fd h f) (offset : Int64)
  (whence : Whence)

include exact_ small on

/-- The place a seek asks for is worked out in 64 bits. -/
theorem place_toInt : -2 ^ 63 ≤ fs.plain.target ⟨h.file, h.pos.toNat⟩ offset.toInt whence ∧
      fs.plain.target ⟨h.file, h.pos.toNat⟩ offset.toInt whence < 2 ^ 64 ∧
      (whence.place h f offset).toInt =
        (fs.plain.target ⟨h.file, h.pos.toNat⟩ offset.toInt whence).bmod (2 ^ 64) := by
  have len := plain_len exact_ on.here on.is
  have short := small.len h.file
  have near : h.pos.toNat < 2 ^ 63 := small.pos fd _ on.cursor
  have least := offset.le_toInt
  have most := offset.toInt_lt
  unfold Plain.target Whence.place
  cases whence with
  | set =>
    dsimp only
    rw [Int.bmod_eq_of_le (by omega) (by omega)]
    omega
  | cur =>
    dsimp only
    rw [Int64.toInt_add, toInt_of_small near]
    omega
  | end_ =>
    dsimp only
    rw [len, Int64.toInt_add, toInt_of_small (len ▸ short)]
    omega

/-- It is one where a seek may go when the sum is. -/
theorem reaches_iff : fs.Reaches f (whence.place h f offset) ↔
    fs.plain.Reaches ⟨h.file, h.pos.toNat⟩
      (fs.plain.target ⟨h.file, h.pos.toNat⟩ offset.toInt whence) := by
  obtain ⟨low, high, sum⟩ := place_toInt exact_ small on offset whence
  obtain ⟨sign, value⟩ := nonneg_of_bmod low high sum
  generalize fs.plain.target ⟨h.file, h.pos.toNat⟩ offset.toInt whence = to_ at sign value
  have len := plain_len exact_ on.here on.is
  have short : f.len.toInt64.toInt = (fs.plain.file h.file).len := by
    rw [len]
    exact toInt_of_small (len ▸ small.len h.file)
  constructor
  · rintro ⟨-, fine⟩
    obtain ⟨low_, high_⟩ := not_or.mp fine
    have nonneg := Int64.not_lt.mp low_
    obtain ⟨least, most⟩ := sign.mp nonneg
    refine ⟨least, most, fun strict => ?_⟩
    have strict : fs.linuxAnswers = false := strict
    have within := fun past => high_ ⟨by simpa using strict, past⟩
    rw [Int64.lt_iff_toInt_lt, short, value nonneg] at within
    exact Int.not_lt.mp within
  · rintro ⟨least, most, inside⟩
    have nonneg := sign.mpr ⟨least, most⟩
    refine ⟨hasBytes_regular on.is, not_or.mpr ⟨Int64.not_lt.mpr nonneg, ?_⟩⟩
    rintro ⟨strict, past⟩
    have within := inside (show fs.linuxAnswers = false by simpa using strict)
    rw [Int64.lt_iff_toInt_lt, short, value nonneg] at past
    exact Int.not_lt.mpr within past

/-- And then it is the sum. -/
theorem reached (reaches : fs.Reaches f (whence.place h f offset)) :
    (whence.place h f offset).toInt = fs.plain.target ⟨h.file, h.pos.toNat⟩ offset.toInt whence ∧
      (whence.place h f offset).toUInt64.toNat =
        (fs.plain.target ⟨h.file, h.pos.toNat⟩ offset.toInt whence).toNat := by
  obtain ⟨low, high, sum⟩ := place_toInt exact_ small on offset whence
  have nonneg := Int64.not_lt.mp fun negative => reaches.2 (.inl negative)
  have value := (nonneg_of_bmod low high sum).2 nonneg
  exact ⟨value, by rw [toNat_toUInt64 nonneg, value]⟩

end Seek

theorem Kept.does_seek (kept : fs.Kept names) (exact_ : fs.Exact) (small : fs.plain.Small)
    (fd : Int32)
    (offset : Int64) (whence : Option Whence)
    (regular : ∀ h f, fs.opened fd = some (h, f) → f.kind = .regular) :
    Plain.Does fs.plain (.seek fd offset whence)
      (.of (fun pos => .position pos.toInt) (fs.seek fd offset whence).1)
      (fs.seek fd offset whence).2.plain := by
  rcases fs.seek_cases fd offset whence with ⟨e, same, none_⟩ | ⟨h, f, w, opened, rfl, goes, there⟩
  · rw [same]
    refine .refused _ fun c at_ w some_ there => ?_
    obtain ⟨h, f, opened, is, rfl⟩ := of_plain_cursor at_
    exact none_ h f w opened some_ ((reaches_iff exact_ small (on opened is) offset w).mpr there)
  · have on := on opened (regular h f opened)
    obtain ⟨value, pos⟩ := reached exact_ small on offset w goes
    have does := Plain.Does.seek on.cursor ((reaches_iff exact_ small on offset w).mp goes)
    rw [← pos, ← plain_moved kept.sound opened on.is, ← value] at does
    rw [there]
    exact does

/-! ### Reading -/

theorem Sound.read_eq (sound : fs.Sound names) (exact_ : fs.Exact)
    (opened : fs.opened fd = some (h, f)) (is : f.kind = .regular) (n : UInt64) :
    fs.read fd n = (.ok ((ByteFile.of f.data).read h.pos.toNat n.toNat),
      fs.moved fd
      (h.pos + UInt64.ofNat ((ByteFile.of f.data).read h.pos.toNat n.toNat).length)) := by
  obtain ⟨-, here⟩ := opened_parts opened
  have length := exact_ f (List.mem_of_getElem? here) is
  have got : (f.data.drop h.pos.toNat).take (min n (left h f)).toNat =
      (ByteFile.of f.data).read h.pos.toNat n.toNat := by
    rw [ByteFile.read_of, min_toNat, left_toNat, ← length, ← List.length_drop,
      List.take_eq_take_min,
      Nat.min_assoc, Nat.min_self]
    exact List.take_eq_take_min.symm
  unfold read
  rw [opened]
  dsimp only
  rw [if_neg (by rw [is]; decide), if_neg (by rw [is]; decide), got,
    sound.onHandle_pos opened fun pos => pos + _]

/-- What is read is from before the end, and the position after it too. -/
theorem read_end (exact_ : fs.Exact) (here : fs.files[i]? = some f) (is : f.kind = .regular)
    (pos n : UInt64) :
    (pos + UInt64.ofNat ((ByteFile.of f.data).read pos.toNat n.toNat).length).toNat =
      pos.toNat + ((ByteFile.of f.data).read pos.toNat n.toNat).length := by
  have length := exact_ f (List.mem_of_getElem? here) is
  have bound := f.len.toNat_lt
  have bound' := pos.toNat_lt
  rw [ByteFile.read_of, List.length_take, List.length_drop, UInt64.toNat_add, UInt64.toNat_ofNat']
  omega

theorem Sound.does_read (sound : fs.Sound names) (exact_ : fs.Exact) (fd : Int32) (n : UInt64)
    (regular : ∀ h f, fs.opened fd = some (h, f) → f.kind = .regular) :
    Plain.Does fs.plain (.read fd n) (.of .bytes (fs.read fd n).1) (fs.read fd n).2.plain := by
  cases opened : fs.opened fd with
  | none =>
    unfold read
    rw [opened]
    exact .refused _ (plain_shut opened)
  | some o =>
    obtain ⟨h, f⟩ := o
    obtain ⟨-, here⟩ := opened_parts opened
    have is := regular h f opened
    have does := @Plain.Does.read fs.plain fd n _ (plain_cursor opened is)
    dsimp only at does
    rw [plain_file here is, ← read_end exact_ here is, ← plain_moved sound opened is] at does
    rw [sound.read_eq exact_ opened is]
    exact does

/-- `NR_pread64` on a buffer that can be written: there, read, and back. -/
def pread (fs : Files) (fd : Int32) (n : UInt64) (offset : Int64) : Except Errno Bytes × Files :=
  match fs.seek fd 0 (some .cur) with
  | (.error e, fs) => (.error e, fs)
  | (.ok pos, fs) =>
    match fs.seek fd offset (some .set) with
    | (.error e, fs) => (.error e, fs)
    | (.ok _, fs) => ((fs.read fd n).1, ((fs.read fd n).2.seek fd pos (some .set)).2)

/-- The descriptor of a regular file can be put back where it stands. -/
theorem Kept.reaches_here (kept : fs.Kept names) (exact_ : fs.Exact) (small : fs.plain.Small)
    (opened : fs.opened fd = some (h, f)) (is : f.kind = .regular) :
    fs.Reaches f (Whence.cur.place h f 0) := by
  obtain ⟨member, -, here⟩ := kept.sound.opened.mp opened
  have on := on opened is
  have near : h.pos.toNat < 2 ^ 63 := small.pos fd _ on.cursor
  refine (reaches_iff exact_ small on 0 .cur).mpr ⟨?_, ?_, fun strict => ?_⟩
  · show 0 ≤ (h.pos.toNat : Int) + 0
    omega
  · show (h.pos.toNat : Int) + 0 < 2 ^ 63
    omega
  · have inside := UInt64.le_iff_toNat_le.mp (kept.bounded strict h member f here)
    show (h.pos.toNat : Int) + 0 ≤ (fs.plain.file h.file).len
    rw [plain_len exact_ here is]
    omega

theorem Kept.does_pread (kept : fs.Kept names) (exact_ : fs.Exact) (small : fs.plain.Small)
    (fd : Int32)
    (n : UInt64) (offset : Int64) (regular : ∀ h f, fs.opened fd = some (h, f) → f.kind =
      .regular) :
    Plain.Does fs.plain (.pread fd n offset) (.of .bytes (fs.pread fd n offset).1)
      (fs.pread fd n offset).2.plain := by
  unfold Files.pread
  rcases fs.seek_cases fd 0 (some .cur) with ⟨e, asked, none_⟩ | ⟨h, f, w, opened, cur, back, asked⟩
  · rw [asked]
    refine .refused _ fun c at_ => ?_
    obtain ⟨h, f, opened, is, -⟩ := of_plain_cursor at_
    exact absurd (kept.reaches_here exact_ small opened is) (none_ h f .cur opened rfl)
  · cases cur
    have on := on opened (regular h f opened)
    have put_back : fs.moved fd (Whence.cur.place h f 0).toUInt64 = fs := by
      show fs.moved fd (h.pos.toInt64 + 0).toUInt64 = fs
      rw [Int64.add_zero]
      exact kept.sound.moved_self opened
    rw [asked, put_back]
    dsimp only
    have reaches : fs.Reaches f offset ↔ fs.plain.Reaches ⟨h.file, h.pos.toNat⟩ offset.toInt :=
      reaches_iff exact_ small on offset .set
    rcases fs.seek_cases fd offset (some .set) with ⟨e, stays, none_⟩ | ⟨_, _, _, there, set, goes,
      asks⟩
    · rw [stays]
      exact .refused _ (on.only fun there => none_ h f .set opened rfl (reaches.mpr there))
    · cases set
      cases opened.symm.trans there
      have pos : offset.toUInt64.toNat = offset.toInt.toNat :=
        (reached exact_ small on offset .set goes).2
      have does := @Plain.Does.pread fs.plain fd n offset _ on.cursor (reaches.mp goes)
      rw [plain_file on.here on.is, ← pos] at does
      rw [asks]
      dsimp only
      rw [show Whence.set.place h f offset = offset from rfl,
        (kept.sound.moved fd offset.toUInt64).read_eq exact_ (opened_moved opened _) on.is n]
      dsimp only
      rw [moved_moved, seek_set (opened_moved opened _) back, moved_moved, put_back]
      exact does

/-! ### Writing and truncating -/

theorem writeAt_length (data : Bytes) (at_ : Nat) (buf : Bytes) :
    (writeAt data at_ buf).length = max data.length (at_ + buf.length) := by
  simp [writeAt]
  omega

theorem of_writeAt (data : Bytes) (at_ : Nat) (buf : Bytes) :
    ByteFile.of (writeAt data at_ buf) = (ByteFile.of data).write at_ buf :=
  ByteFile.of_write (writeAt_length ..) fun _ _ => writeAt_getElem? ..

theorem plain_putBytes (here : fs.files[i]? = some f) (is : f.kind = .regular) (at_ : UInt64)
    (buf : Bytes) : (fs.putBytes i at_ buf).plain =
      fs.plain.change i ((fs.plain.file i).write at_.toNat buf) := by
  have data : (f.written at_.toNat buf).data = writeAt f.data at_.toNat buf :=
    if_neg fun both => by rw [is] at both; cases both.1
  rw [putBytes, plain_onFile here is (fun f => written_sig f _ _), data, of_writeAt,
    plain_file here is]

theorem count_small {n : Nat} (small : n < 2 ^ 64) :
    FileReply.count n = .count (UInt64.ofNat n).toNat :=
  congrArg FileReply.count (UInt64.toNat_ofNat_of_lt' small).symm

theorem Kept.does_write (kept : fs.Kept names) (fd : Int32)
    (regular : ∀ h f, fs.opened fd = some (h, f) → f.kind = .regular)
    (fits : ∀ c, fs.plain.cursor fd = some c → c.pos + buf.length < 2 ^ 63) :
    Plain.Does fs.plain (.write fd buf) (.of (fun n => .count n.toNat) (fs.write fd buf).1)
      (fs.write fd buf).2.plain := by
  unfold Files.write
  cases opened : fs.opened fd with
  | none => exact .refused _ (refuses_shut opened)
  | some o =>
    obtain ⟨h, f⟩ := o
    have on := on opened (regular h f opened)
    have room : h.pos.toNat + buf.length < 2 ^ 63 := fits _ on.cursor
    have end_ := @end_toNat h.pos buf (by omega)
    dsimp only
    rw [if_neg (by rw [on.is]; decide)]
    split
    next off => exact .refused _ (on.only (by simpa [on.writable, on.is] using off))
    next writes =>
      have writes : fs.plain.writable h.file = true := by simpa [on.writable, on.is] using writes
      rw [if_neg fun wraps => by rw [UInt64.lt_iff_toNat_lt] at wraps; omega]
      have after : (fs.putBytes h.file h.pos buf).Kept names := kept.putBytes h.file (by omega)
      have opened' : (fs.putBytes h.file h.pos buf).opened fd = some
          (h, f.written h.pos.toNat buf) :=
        opened_onFile opened _
      have does := @Plain.Does.write fs.plain fd buf _ on.cursor writes
      have moved := plain_moved after.sound opened' on.is (h.pos + UInt64.ofNat buf.length)
      rw [plain_putBytes on.here on.is, end_] at moved
      rw [← moved] at does
      rw [after.sound.onHandle_pos opened' fun pos => pos + _]
      rw [count_small (show buf.length < 2 ^ 64 by omega)] at does
      exact does

theorem does_pwrite (fd : Int32) (some_ : buf ≠ [])
    (regular : ∀ h f, fs.opened fd = some (h, f) → f.kind = .regular)
    (fits : offset.toInt + buf.length < 2 ^ 63) :
    Plain.Does fs.plain (.pwrite fd buf offset)
    (.of (fun n => .count n.toNat) (fs.pwrite fd buf offset).1)
      (fs.pwrite fd buf offset).2.plain := by
  have positive := List.length_pos_iff.mpr some_
  unfold pwrite
  cases opened : fs.opened fd with
  | none => exact .refused _ (refuses_shut opened)
  | some o =>
    obtain ⟨h, f⟩ := o
    have on := on opened (regular h f opened)
    dsimp only
    rw [if_neg (by rw [on.is]; decide)]
    split
    next off => exact .refused _ (on.only (.inl (by simpa [on.writable, on.is] using off)))
    next writes =>
      have writes : fs.plain.writable h.file = true := by simpa [on.writable, on.is] using writes
      split
      next negative => exact .refused _ (on.only (.inr (Int64.lt_iff_toInt_lt.mp negative)))
      next nonneg =>
        have nonneg := Int64.not_lt.mp nonneg
        have least : 0 ≤ offset.toInt := Int64.le_iff_toInt_le.mp nonneg
        have at_ := toNat_toUInt64 nonneg
        have count : (UInt64.ofNat buf.length).toNat = buf.length :=
          UInt64.toNat_ofNat_of_lt' (show buf.length < 2 ^ 64 by omega)
        have end_ := @end_toNat offset.toUInt64 buf (by omega)
        rw [if_neg fun zero => by rw [zero, UInt64.toNat_zero] at count; omega,
          if_neg fun wraps => by rw [UInt64.lt_iff_toNat_lt] at wraps; omega]
        have does := @Plain.Does.pwrite fs.plain fd buf offset _ on.cursor writes least
        dsimp only at does
        rw [← at_, ← plain_putBytes on.here on.is] at does
        rw [count_small (show buf.length < 2 ^ 64 by omega)] at does
        exact does

/-- A regular file is truncated when it can be written, to a length that is not negative. -/
theorem truncateName_cases (found : fs.byName name = some f) (is : f.kind = .regular)
    (size : Int64) :
    (fs.truncateName name size = (.error .ebadf, fs) ∧ (f.writable = false ∨ size.toInt < 0)) ∨
      (fs.truncateName name size).1 = .ok () ∧ f.writable = true ∧ 0 ≤ size.toInt ∧
        (fs.truncateName name size).2.plain = fs.plain.truncate
        (fs.fileIndex name) size.toInt.toNat := by
  obtain ⟨here, -⟩ := byName_eq found
  unfold truncateName
  rw [found]
  dsimp only
  rw [is, if_neg fun disk => nomatch disk.1]
  split
  next off =>
    refine .inl ⟨rfl, ?_⟩
    rcases off with other | reads | negative
    · exact absurd rfl other
    · exact .inl (by simpa using reads)
    · exact .inr (Int64.lt_iff_toInt_lt.mp negative)
  next on =>
    obtain ⟨-, on⟩ := not_or.mp on
    obtain ⟨writes, nonneg⟩ := not_or.mp on
    have nonneg := Int64.not_lt.mp nonneg
    refine .inr ⟨rfl, by simpa using writes, Int64.le_iff_toInt_le.mp nonneg, ?_⟩
    rw [← toNat_toUInt64 nonneg]
    exact plain_truncated here is _

theorem Sound.does_truncate (sound : fs.Sound names) (size : Int64)
    (regular : ∀ f, fs.byName name = some f → f.kind = .regular) :
    Plain.Does fs.plain (.truncate name size) (.of (fun _ => .done) (fs.truncateName name size).1)
      (fs.truncateName name size).2.plain := by
  cases found : fs.byName name with
  | none =>
    unfold truncateName
    rw [found]
    exact .refused _ fun j named => absurd named (plain_unnamed found j)
  | some f =>
    obtain ⟨here, named⟩ := byName_eq found
    have is := regular f found
    have writable := plain_writable here is
    rcases truncateName_cases found is size with ⟨same, why⟩ | ⟨ok, writes, nonneg, after⟩
    · rw [same]
      refine .refused _ fun j on => ?_
      rw [sound.plain_named found on, writable]
      exact why
    · have name_ := plain_name here is
      rw [named] at name_
      rw [ok, after]
      exact .truncate name_ (writable.trans writes) nonneg

theorem Sound.byName_self (sound : fs.Sound names) (here : fs.files[i]? = some f) :
    fs.byName f.name = some f ∧ fs.fileIndex f.name = i := by
  cases found : fs.byName f.name with
  | none =>
    have other := List.find?_eq_none.mp found f (List.mem_of_getElem? here)
    exact absurd (beq_self_eq_true f.name) other
  | some g =>
    obtain ⟨there, same⟩ := byName_eq found
    have place := sound.place_unique there here same
    rw [place, here] at there
    exact ⟨there.symm, place⟩

theorem Sound.does_ftruncate (sound : fs.Sound names) (fd : Int32) (size : Int64)
    (regular : ∀ h f, fs.opened fd = some (h, f) → f.kind = .regular) :
    Plain.Does fs.plain (.ftruncate fd size) (.of (fun _ => .done) (fs.truncateFd fd size).1)
      (fs.truncateFd fd size).2.plain := by
  unfold truncateFd
  cases opened : fs.opened fd with
  | none => exact .refused _ (refuses_shut opened)
  | some o =>
    obtain ⟨h, f⟩ := o
    have on := on opened (regular h f opened)
    obtain ⟨found, place⟩ := sound.byName_self on.here
    dsimp only
    rcases truncateName_cases found on.is size with ⟨same, why⟩ | ⟨ok, writes, nonneg, after⟩
    · rw [same]
      refine .refused _ (on.only ?_)
      rw [on.writable]
      exact why
    · rw [ok, after, place]
      exact .ftruncate on.cursor (on.writable.trans writes) nonneg

end Calls

end Files

end MiniBox
