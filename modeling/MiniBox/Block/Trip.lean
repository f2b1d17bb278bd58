import MiniBox.Block.Machine

/-!
# A fault served, a fault refused

What `trip` leaves behind, whichever way it ends.  It has four ways to end: the fault is not
its business; a page it has to release has no baseline and there is no room for one; the OS
refuses the protection; or the write is let through.  `Block.Trips` says what each of them
does to the block.

The handler remembers which pages it released in one 64-bit word.  `Block.tripWord` is `trip`
with that word, its shifts taken modulo 64 as the machine takes them: on a host page of up to
64 machine pages it is `trip`, and on a larger one two pages may share a bit, so that a page
nothing was done to is noted along with one that was released.
-/

namespace MiniBox

open Lib

/-! ## The word of released pages -/

variable {held : Nat → Bool} {first count q : Nat}

/-- The bit of page `q` of the group that starts at `first`. -/
def groupBit (first q : Nat) : UInt64 := 1 <<< UInt64.ofNat (q - first)

def releasedWord (held : Nat → Bool) (first count : Nat) : UInt64 :=
  forRange first count (fun word q => if held q then word ||| groupBit first q else word) 0

def inWord (word : UInt64) (first q : Nat) : Bool := word &&& groupBit first q != 0

theorem groupBit_toBitVec (first q : Nat) :
    (groupBit first q).toBitVec = BitVec.twoPow 64 ((q - first) % 64) := by
  simp [groupBit, BitVec.twoPow]

theorem inWord_eq (word : UInt64) (first q : Nat) :
    inWord word first q = word.toBitVec.getLsbD ((q - first) % 64) := by
  have nonzero : inWord word first q = decide ((word &&& groupBit first q).toBitVec ≠ 0#64) := by
    unfold inWord
    rw [Bool.eq_iff_iff, bne_iff_ne, decide_eq_true_iff, ne_eq, ne_eq, ← UInt64.toBitVec_inj]
    rfl
  rw [nonzero, UInt64.toBitVec_and, groupBit_toBitVec, BitVec.and_twoPow]
  have low : (q - first) % 64 < 64 := Nat.mod_lt _ (by decide)
  have set : BitVec.twoPow 64 ((q - first) % 64) ≠ 0#64 := by
    intro zero
    have bit := congrArg (fun bits => bits.getLsbD ((q - first) % 64)) zero
    simp [low] at bit
  cases word.toBitVec.getLsbD ((q - first) % 64) with
  | false => simp
  | true => simp [set]

/-- Adding a page's bit leaves the others' as they were. -/
theorem inWord_or (word : UInt64) (first p q : Nat) : inWord (word ||| groupBit first p) first q =
      (inWord word first q || decide ((p - first) % 64 = (q - first) % 64)) := by
  have low : (q - first) % 64 < 64 := Nat.mod_lt _ (by decide)
  rw [inWord_eq, inWord_eq, UInt64.toBitVec_or, groupBit_toBitVec, BitVec.getLsbD_or,
    BitVec.getLsbD_twoPow]
  have low' : (p - first) % 64 < 64 := Nat.mod_lt _ (by decide)
  simp [low, low']

/-- Every page released is in the word. -/
theorem releasedWord_has (is_held : held q = true) (lo : first ≤ q) (hi : q < first + count) :
    inWord (releasedWord held first count) first q = true := by
  refine forRange_establishes (P := fun _ => True) (Q := fun word => inWord word first q = true)
    trivial (fun _ _ _ _ => trivial) (fun word _ => ?_) (fun word p has => ?_) lo hi
  · simp [is_held, inWord_or]
  · split_ifs
    · rw [inWord_or, has, Bool.true_or]
    · exact has

/-- In a group of up to 64 pages nothing else is. -/
theorem inWord_releasedWord (small : count ≤ 64) (lo : first ≤ q) (hi : q < first + count) :
    inWord (releasedWord held first count) first q = held q := by
  cases is_held : held q with
  | true => exact releasedWord_has is_held lo hi
  | false =>
    refine forRange_inv (P := fun word => inWord word first q = false) (by simp [inWord])
      fun word p low high none => ?_
    split_ifs with other
    · have apart : (p - first) % 64 ≠ (q - first) % 64 := by
        intro same
        obtain rfl : p = q := by omega
        rw [is_held] at other
        cases other
      rw [inWord_or, none, Bool.false_or, decide_eq_false apart]
    · exact none

/-! ## The handler -/

namespace Block

/-- A fault the handler looks at: on a tracked page of a block that is mapped. -/
def Tripping (b : Block) (i : Nat) : Prop :=
  b.swappedIn = true ∧ i < b.npages ∧ statusTracked (b.page i).status = true

/-- The baseline copies, for the first `count` pages of the group of `i`. -/
def tripBaselines (b : Block) (i count : Nat) : Block :=
  b.onPages (b.groupFirst i) count fun q x =>
    if x.page.heldBy (q == i) then maybeSnapshot x else x

/-- The group's pages, taken out of the write's way. -/
def tripRelease (b : Block) (i : Nat) : Block :=
  b.onPages (b.groupFirst i) (b.groupCount i) fun q x =>
    if x.page.heldBy (q == i) then tripPage b.planActive b.epochActive q x else x

/-- The host page's protection, and the note of every page in `released`. -/
def tripOpen (b : Block) (i : Nat) (released : Nat → Bool) : Block :=
  (b.protect (b.hostPage i) (b.groupNativeProt (b.hostPage i))).onPages
    (b.groupFirst i) (b.groupCount i) fun q x => if released q then noteUnheld x else x

/-- All of it: the block once the handler has opened the host page. -/
def tripped (b : Block) (i : Nat) (released : Nat → Bool) : Block :=
  ((b.tripBaselines i (b.groupCount i)).tripRelease i).tripOpen i released

/-- `trip` with the released pages in a word, as the source keeps them. -/
def tripWord (room : Nat → Bool) (protectOk : Bool) (b : Block) (i : Nat) : Bool × Block :=
  if !b.swappedIn || decide (b.npages ≤ i) || !statusTracked (b.page i).status then (false, b)
  else
    let first := b.groupFirst i
    let count := b.groupCount i
    let served := firstFrom
      (fun q => !(b.page q).heldBy (q == i) || (b.page q).snap != .none || room q) count first
    let b := b.tripBaselines i (served - first)
    if served < first + count then (false, b)
    else
      let released := releasedWord (fun q => (b.page q).heldBy (q == i)) first count
      let b := b.tripRelease i
      if !protectOk then (false, b)
      else (true, b.tripOpen i (inWord released first))

/-- A page the handler has to release without a baseline, and no room for one. -/
def Starved (b : Block) (room : Nat → Bool) (i q : Nat) : Prop :=
  b.hostPage q = b.hostPage i ∧ q < b.npages ∧ (b.page q).heldBy (q == i) = true ∧
    (b.page q).snap = .none ∧ room q = false

/-- The ways a fault on page `i` ends. -/
inductive Trips (b : Block) (room : Nat → Bool) (protectOk : Bool) (i : Nat) :
    Bool → Block → Prop where
  | notMine : ¬ b.Tripping i → Trips b room protectOk i false b
  | noBaseline {q : Nat} : b.Tripping i → b.Starved room i q →
      Trips b room protectOk i false (b.tripBaselines i (q - b.groupFirst i))
  | notProtected : b.Tripping i → (∀ q, ¬ b.Starved room i q) → protectOk = false →
      Trips b room protectOk i false ((b.tripBaselines i (b.groupCount i)).tripRelease i)
  | served {released : Nat → Bool} : b.Tripping i →
      (∀ q, b.hostPage q = b.hostPage i → q < b.npages →
        (b.page q).heldBy (q == i) = true → released q = true) →
      Trips b room protectOk i true (b.tripped i released)

end Block

section Ends

variable {b : Block} {room : Nat → Bool} {protectOk : Bool} {i : Nat}

namespace Block

theorem tripping_iff : b.Tripping i ↔
    ¬ (!b.swappedIn || decide (b.npages ≤ i) || !statusTracked (b.page i).status) = true := by
  simp only [Tripping, Bool.or_eq_true, Bool.not_eq_true', decide_eq_true_eq, not_or,
    Bool.not_eq_false, Nat.not_le, and_assoc]

theorem tripBaselines_page (b : Block) (i count j : Nat) : (b.tripBaselines i count).page j =
      if (b.groupFirst i ≤ j ∧ j < b.groupFirst i + count) ∧ (b.page j).heldBy (j == i) = true then
        (maybeSnapshot ⟨b.page j, {}⟩).page
      else b.page j :=
  b.tripSnapshots_page (b.groupFirst i) count i j

@[simp] theorem tripBaselines_toControl (b : Block) (i count : Nat) :
    (b.tripBaselines i count).toControl = b.toControl := b.onPages_toControl _ _ _

@[simp] theorem tripRelease_toControl (b : Block) (i : Nat) :
    (b.tripRelease i).toControl = b.toControl := b.onPages_toControl _ _ _

@[simp] theorem tripOpen_toControl (b : Block) (i : Nat) (released : Nat → Bool) :
    (b.tripOpen i released).toControl = b.toControl := onPages_toControl _ _ _ _

/-- A baseline copy changes nothing else of a page. -/
theorem tripBaselines_rest (b : Block) (i count j : Nat) :
    ∃ snap, (b.tripBaselines i count).page j = { b.page j with snap } := by
  rw [tripBaselines_page]
  split_ifs
  · exact ⟨_, maybeSnapshot_page ⟨b.page j, {}⟩⟩
  · exact ⟨(b.page j).snap, rfl⟩

theorem tripBaselines_heldBy (b : Block) (i count j : Nat) (written : Bool) :
    ((b.tripBaselines i count).page j).heldBy written = (b.page j).heldBy written := by
  obtain ⟨snap, is⟩ := b.tripBaselines_rest i count j
  rw [is]
  rfl

/-- What the scan for baselines found. -/
theorem Tripping.scan (mine : b.Tripping i) (room : Nat → Bool) :
    let served := firstFrom
      (fun q => !(b.page q).heldBy (q == i) || (b.page q).snap != .none || room q)
      (b.groupCount i) (b.groupFirst i)
    served < b.groupFirst i + b.groupCount i ∧ b.Starved room i served ∨
      served = b.groupFirst i + b.groupCount i ∧ ∀ q, ¬ b.Starved room i q := by
  intro served
  have low : b.groupFirst i ≤ served := le_firstFrom _ _ _
  have high : served ≤ b.groupFirst i + b.groupCount i := firstFrom_le _ _ _
  by_cases short : served < b.groupFirst i + b.groupCount i
  · obtain ⟨host, inside⟩ := (Control.mem_group mine.2.1).mp ⟨low, short⟩
    have stopped := firstFrom_stopped short
    simp only [Bool.or_eq_false_iff, Bool.not_eq_false', bne_eq_false_iff_eq] at stopped
    exact .inl ⟨short, host, inside, stopped.1.1, stopped.1.2, stopped.2⟩
  · have all : served = b.groupFirst i + b.groupCount i := by omega
    refine .inr ⟨all, fun q ⟨host, inside, held, missing, full⟩ => ?_⟩
    obtain ⟨lo, hi⟩ := (Control.mem_group mine.2.1).mpr ⟨host, inside⟩
    have passed := firstFrom_passed lo (all ▸ hi : q < served)
    simp [held, missing, full] at passed

theorem tripWord_trips (b : Block) (room : Nat → Bool) (protectOk : Bool) (i : Nat) :
    b.Trips room protectOk i (b.tripWord room protectOk i).1 (b.tripWord room protectOk i).2 := by
  unfold tripWord
  split
  next other => exact .notMine (mt tripping_iff.mp (not_not.mpr other))
  next refused =>
    have mine : b.Tripping i := tripping_iff.mpr refused
    dsimp only
    have found := mine.scan room
    dsimp only at found
    generalize firstFrom _ _ _ = served at found ⊢
    rcases found with ⟨short, starved⟩ | ⟨rfl, fed⟩
    · rw [if_pos short]
      exact .noBaseline mine starved
    · rw [if_neg (Nat.lt_irrefl _), Nat.add_sub_cancel_left]
      cases protectOk with
      | false => exact .notProtected mine fed rfl
      | true =>
        simp only [Bool.not_true, Bool.false_eq_true, if_false]
        refine .served mine fun q host inside held => ?_
        obtain ⟨lo, hi⟩ := (Control.mem_group mine.2.1).mpr ⟨host, inside⟩
        refine releasedWord_has ?_ lo hi
        rw [tripBaselines_heldBy, held]

/-- On a host page of up to 64 machine pages the word is the set of released pages. -/
theorem tripWord_eq_trip (small : b.groupShift ≤ 6) :
    b.tripWord room protectOk i = b.trip room protectOk i := by
  have fits : b.groupCount i ≤ 64 :=
    (Nat.min_le_left _ _).trans (Nat.pow_le_pow_right (by decide) small)
  unfold tripWord trip tripOpen tripRelease tripBaselines
  simp only [onPages_toControl]
  refine if_congr .rfl rfl (if_congr .rfl rfl (if_congr .rfl rfl (congrArg (Prod.mk true) ?_)))
  refine List.foldl_ext _ _ _ fun c q member => ?_
  obtain ⟨lo, hi⟩ := List.mem_range'_1.mp member
  beta_reduce
  rw [inWord_releasedWord fits lo hi]

end Block

end Ends

/-! ## A fault refused -/

/-- What the tracker records of writes to a page. -/
structure WriteRecords where
  dirty : Bool
  dirtyMap : Bool
  held : Bool
  epochDirty : Bool
  epochBit : Bool
  deriving DecidableEq

def Page.records (p : Page) : WriteRecords :=
  ⟨p.dirty, p.dirtyMap, p.held, p.epochDirty, p.epochBit⟩

/-- The records say already that the page was written. -/
def Page.recorded (epochActive : Bool) (p : Page) : Bool :=
  p.dirty && p.dirtyMap && !p.held && (p.epochDirty || !(epochActive && p.epochTracks))

theorem Page.records_tripPage (planActive epochActive : Bool) (p : Page) :
    (tripPage planActive epochActive 0 ⟨p, {}⟩).page.records = p.records ↔
      p.recorded epochActive = true := by
  simp only [tripPage, setDirty_page, planCapture_page, epochCapture_page, records,
    WriteRecords.mk.injEq, recorded, Bool.and_eq_true, Bool.or_eq_true, Bool.not_eq_true']
  cases p.dirty <;> cases p.dirtyMap <;> cases p.held <;> cases p.epochDirty <;>
    cases epochActive && p.epochTracks <;> simp

section Refused

variable {b : Block} {room : Nat → Bool} {protectOk : Bool} {i : Nat}

namespace Block

theorem tripBaselines_records (b : Block) (i count j : Nat) :
    ((b.tripBaselines i count).page j).records = (b.page j).records := by
  obtain ⟨snap, is⟩ := b.tripBaselines_rest i count j
  rw [is]
  rfl

theorem tripBaselines_recorded (b : Block) (i count j : Nat) (epochActive : Bool) :
    ((b.tripBaselines i count).page j).recorded epochActive = (b.page j).recorded epochActive := by
  obtain ⟨snap, is⟩ := b.tripBaselines_rest i count j
  rw [is]
  rfl

theorem tripRelease_page (inside : i < b.npages) (j : Nat) : (b.tripRelease i).page j =
      if (b.hostPage j = b.hostPage i ∧ j < b.npages) ∧ (b.page j).heldBy (j == i) = true then
        (tripPage b.planActive b.epochActive 0 ⟨b.page j, {}⟩).page
      else b.page j := by
  have page := b.tripPages_page b.planActive b.epochActive (b.groupFirst i) (b.groupCount i) i j
  simp only [Control.mem_group inside] at page
  exact page

/-- The handler's releases change nothing in a page's records exactly when they had it all. -/
theorem tripRelease_records (inside : i < b.npages) {j : Nat} (hj : j < b.npages)
    (host : b.hostPage j = b.hostPage i) (count : Nat) :
    (((b.tripBaselines i count).tripRelease i).page j).records = (b.page j).records ↔
      ((b.page j).heldBy (j == i) = true → (b.page j).recorded b.epochActive = true) := by
  have control := b.tripBaselines_toControl i count
  rw [tripRelease_page (by rw [control]; exact inside), control, tripBaselines_heldBy]
  by_cases held : (b.page j).heldBy (j == i) = true
  · rw [if_pos ⟨⟨host, hj⟩, held⟩, ← b.tripBaselines_records i count j, Page.records_tripPage,
      tripBaselines_recorded]
    exact ⟨fun all _ => all, fun all => all held⟩
  · rw [if_neg fun both => held both.2]
    exact ⟨fun _ is_held => absurd is_held held, fun _ => b.tripBaselines_records i count j⟩

/-- A fault that is refused leaves the records of its host page alone exactly when a baseline
was missing, or when the pages it releases were recorded as written before it. -/
theorem trip_refused_records (mine : b.Tripping i)
    (refused : (b.tripWord room protectOk i).1 = false) :
    (∀ j, j < b.npages → b.hostPage j = b.hostPage i →
        ((b.tripWord room protectOk i).2.page j).records = (b.page j).records) ↔
      (∃ q, b.Starved room i q) ∨
        ∀ j, j < b.npages → b.hostPage j = b.hostPage i → (b.page j).heldBy (j == i) = true →
          (b.page j).recorded b.epochActive = true := by
  have ends := b.tripWord_trips room protectOk i
  rw [refused] at ends
  generalize (b.tripWord room protectOk i).2 = c at ends
  cases ends with
  | notMine other => exact absurd mine other
  | noBaseline _ starved =>
    exact iff_of_true (fun j _ _ => b.tripBaselines_records i _ j) (.inl ⟨_, starved⟩)
  | notProtected _ fed _ =>
    constructor
    · exact fun same => .inr fun j hj host =>
        (tripRelease_records mine.2.1 hj host _).mp (same j hj host)
    · rintro (⟨q, starved⟩ | all) j hj host
      · exact absurd starved (fed q)
      · exact (tripRelease_records mine.2.1 hj host _).mpr (all j hj host)

end Block

end Refused

/-- The first write to a page of a sealed block. -/
def Block.firstWrite : Block := onePage.sealNow.2

/-- The OS refuses that write its protection, and the page's records say it was written. -/
theorem Block.trip_refused_dirties : firstWrite.Tripping 0 ∧
      (firstWrite.tripWord (fun _ => true) false 0).1 = false ∧
      (firstWrite.page 0).dirty = false ∧
      ((firstWrite.tripWord (fun _ => true) false 0).2.page 0).dirty = true ∧
      ((firstWrite.tripWord (fun _ => true) false 0).2.page 0).records ≠
        (firstWrite.page 0).records := by
  refine ⟨⟨?_, ?_, ?_⟩, ?_, ?_, ?_, ?_⟩ <;> decide +kernel

/-- With no room for the baseline of the page, its records stay. -/
theorem Block.trip_refused_records_starved : firstWrite.Tripping 0 ∧
      (firstWrite.tripWord (fun _ => false) true 0).1 = false ∧
      ∀ j, j < firstWrite.npages → firstWrite.hostPage j = firstWrite.hostPage 0 →
        ((firstWrite.tripWord (fun _ => false) true 0).2.page j).records =
          (firstWrite.page j).records := by
  have mine : firstWrite.Tripping 0 := by
    refine ⟨?_, ?_, ?_⟩ <;> decide +kernel
  have refused : (firstWrite.tripWord (fun _ => false) true 0).1 = false := by
    decide +kernel
  refine ⟨mine, refused, (trip_refused_records mine refused).mpr (.inl ⟨0, ?_⟩)⟩
  refine ⟨rfl, mine.2.1, ?_, ?_, rfl⟩ <;> decide +kernel

/-! ## A fault served -/

/-- What the handler relies on: a page is in the open epoch's list when it says so, and is held
for a planned state only while there is one. -/
structure Block.Tended (b : Block) : Prop where
  epoch : ∀ i, i < b.npages → (b.page i).epochBit = (b.page i).epochDirty
  plan : ∀ i, i < b.npages → (b.page i).planHold ≠ .free → b.planActive = true

/-- A copy of page `i`, which is in its place with the bytes the page has if nobody else made it. -/
def Page.Copies (i : Nat) (p : Page) (copy : Copy) : Prop :=
  copy.page = i ∧ (p.planHold = .owed → copy.slot = p.planSlot ∧ copy.bytes = p.mem)

/-- Nothing is lost when page `j` of `b` is written in `c`. -/
structure Block.Heard (b c : Block) (j : Nat) : Prop where
  baseline : (c.page j).snap =
    if (b.page j).snap = .none then .data (b.page j).mem else (b.page j).snap
  dirty : (c.page j).dirty = true ∧ (c.page j).dirtyMap = true
  epoch : b.epochActive = true → (b.page j).invisible = false →
    (c.page j).epochDirty = true ∧ (c.page j).epochBit = true
  released : (c.page j).planHold = .free
  copied : (b.page j).planHold ≠ .free →
    ∃ copy ∈ c.shared.copies, (b.page j).Copies j copy
  unheld : (c.page j).hot = true ∨ (c.page j).unheldBit = true

section Served

variable {b : Block} {i : Nat} {released : Nat → Bool} {j : Nat}

namespace Block

@[simp] theorem tripped_toControl (b : Block) (i : Nat) (released : Nat → Bool) :
    (b.tripped i released).toControl = b.toControl := by
  simp [tripped]

variable (inside : i < b.npages)
include inside

theorem tripOpen_page (released : Nat → Bool) (j : Nat) : (b.tripOpen i released).page j =
      if (b.hostPage j = b.hostPage i ∧ j < b.npages) ∧ released j = true then
        { b.page j with unheldBit := (b.page j).unheldBit || !(b.page j).hot }
      else b.page j := by
  have page := (b.protect (b.hostPage i) (b.groupNativeProt (b.hostPage i))).tripNotes_page
    released (b.groupFirst i) (b.groupCount i) j
  simp only [Control.mem_group inside] at page
  exact page

/-- Before it is noted, a page is as it was, or released. -/
theorem tripRelease_tripBaselines_page (j : Nat) :
    ((b.tripBaselines i (b.groupCount i)).tripRelease i).page j =
      if (b.hostPage j = b.hostPage i ∧ j < b.npages) ∧ (b.page j).heldBy (j == i) = true then
        (tripPage b.planActive b.epochActive 0 (maybeSnapshot ⟨b.page j, {}⟩)).page
      else b.page j := by
  have control := b.tripBaselines_toControl i (b.groupCount i)
  rw [tripRelease_page (by rw [control]; exact inside), control, tripBaselines_heldBy,
    tripBaselines_page]
  simp only [Control.mem_group inside]
  split_ifs
  · simp [tripPage]
  · rfl

theorem tripped_page (released : Nat → Bool) (j : Nat) : (b.tripped i released).page j =
      let p := if (b.hostPage j = b.hostPage i ∧ j < b.npages) ∧
          (b.page j).heldBy (j == i) = true then
        (tripPage b.planActive b.epochActive 0 (maybeSnapshot ⟨b.page j, {}⟩)).page
      else b.page j
      if (b.hostPage j = b.hostPage i ∧ j < b.npages) ∧ released j = true then
        { p with unheldBit := p.unheldBit || !p.hot }
      else p := by
  have control : ((b.tripBaselines i (b.groupCount i)).tripRelease i).toControl = b.toControl := by
    simp
  rw [tripped, tripOpen_page (by rw [control]; exact inside), control,
    tripRelease_tripBaselines_page inside]

/-- A page the handler has to release is released. -/
theorem tripped_released (hj : j < b.npages) (host : b.hostPage j = b.hostPage i)
    (held : (b.page j).heldBy (j == i) = true) (noted : released j = true) :
    (b.tripped i released).page j = (b.page j).released b.planActive b.epochActive := by
  rw [tripped_page inside]
  simp only [host, hj, held, noted, and_self, if_true]
  rfl

/-- Any other page is as it was, but for a note. -/
theorem tripped_kept {released : Nat → Bool} {j : Nat}
    (kept : ¬ ((b.hostPage j = b.hostPage i ∧ j < b.npages) ∧ (b.page j).heldBy (j == i) = true)) :
    ∃ unheldBit, (b.tripped i released).page j = { b.page j with unheldBit } := by
  rw [tripped_page inside]
  simp only [if_neg kept]
  split_ifs
  · exact ⟨_, rfl⟩
  · exact ⟨(b.page j).unheldBit, rfl⟩

theorem tripped_outside (other : ¬ (b.hostPage j = b.hostPage i ∧ j < b.npages)) :
    (b.tripped i released).page j = b.page j := by
  rw [tripped_page inside]
  simp only [other, false_and, if_false]

theorem tripped_os (released : Nat → Bool) (g : Nat) : (b.tripped i released).os g =
      if g = b.hostPage i then (b.tripped i released).groupNativeProt g else b.os g := by
  set c := (b.tripBaselines i (b.groupCount i)).tripRelease i with hc
  have control : c.toControl = b.toControl := by simp [hc]
  have os : c.os = b.os := by
    rw [hc, tripRelease, onPages_os, tripBaselines, onPages_os]
  have same : (c.tripOpen i released).groupNativeProt g = c.groupNativeProt g := by
    refine groupNativeProt_congr (c.tripOpen_toControl i released) (fun k => ?_) g
    rw [tripOpen_page (by rw [control]; exact inside)]
    split_ifs <;> exact ⟨rfl, rfl⟩
  rw [tripped, ← hc, same]
  simp only [tripOpen, onPages_os, protect, control, os]
  by_cases here : g = b.hostPage i
  · rw [if_pos here, here, Function.update_self]
  · rw [if_neg here, Function.update_of_ne here]

end Block

/-! ### The copy a planned state is owed -/

@[simp] theorem epochCapture_copies (epochActive : Bool) (x : Track) :
    (epochCapture epochActive x).shared.copies = x.shared.copies := by
  simp only [epochCapture, markEpoch]
  split_ifs <;> rfl

@[simp] theorem setDirty_copies (dirty : Bool) (x : Track) :
    (setDirty dirty x).shared.copies = x.shared.copies := by
  simp only [setDirty, pageCool]
  split_ifs <;> rfl

/-- A copy made is not taken back. -/
theorem planCapture_keeps {planActive : Bool} {i : Nat} {x : Track} {copy : Copy}
    (made : copy ∈ x.shared.copies) : copy ∈ (planCapture planActive i x).shared.copies := by
  cases planActive with
  | false => exact made
  | true =>
    simp only [planCapture, if_true, planTake]
    cases x.page.planHold with
    | free => exact made
    | owed => simp [setPlanHold, planCopyPage, made]
    | copying =>
      simp only [setPlanHold]
      split_ifs
      · exact made
      · simp [planCopyPage, made]

theorem planCapture_copies {i : Nat} {x : Track} (owed : x.page.planHold ≠ .free) :
    ∃ copy ∈ (planCapture true i x).shared.copies, x.page.Copies i copy := by
  simp only [planCapture, if_true, planTake]
  cases hold : x.page.planHold with
  | free => exact absurd hold owed
  | owed =>
    refine ⟨⟨i, x.page.planSlot, x.page.mem⟩, ?_, rfl, fun _ => ⟨rfl, rfl⟩⟩
    simp [setPlanHold, planCopyPage]
  | copying =>
    simp only [setPlanHold]
    split_ifs with made
    · obtain ⟨copy, member, page⟩ := List.any_eq_true.mp made
      refine ⟨copy, member, by simpa using page, fun h => ?_⟩
      rw [hold] at h
      cases h
    · refine ⟨⟨i, x.page.planSlot, x.page.mem⟩, ?_, rfl, fun _ => ⟨rfl, rfl⟩⟩
      simp [planCopyPage]

namespace Block

/-- The copy of every page released is in the buffer when the write goes ahead. -/
theorem tripRelease_copies (active : b.planActive = true) (inside : i < b.npages) {j : Nat}
    (hj : j < b.npages) (host : b.hostPage j = b.hostPage i)
    (held : (b.page j).heldBy (j == i) = true) (owed : (b.page j).planHold ≠ .free) :
    ∃ copy ∈ (b.tripRelease i).shared.copies, (b.page j).Copies j copy := by
  obtain ⟨lo, hi⟩ := (Control.mem_group inside).mpr ⟨host, hj⟩
  refine forRange_establishes (P := fun c : Block => c.page j = b.page j)
    (Q := fun c : Block => ∃ copy ∈ c.shared.copies, (b.page j).Copies j copy)
    rfl (fun c q other same => ?_) (fun c same => ?_) (fun c q made => ?_) lo hi
  · rw [onPage_page_ne _ _ (Ne.symm other), same]
  · rw [onPage_shared, same]
    beta_reduce
    rw [if_pos held, tripPage, setDirty_copies, active]
    have captured := @planCapture_copies j (epochCapture b.epochActive ⟨b.page j, c.shared⟩)
    simp only [epochCapture_page] at captured
    exact captured owed
  · obtain ⟨copy, member, copies⟩ := made
    refine ⟨copy, ?_, copies⟩
    rw [onPage_shared]
    beta_reduce
    split_ifs
    · rw [tripPage, setDirty_copies]
      exact planCapture_keeps (by rw [epochCapture_copies]; exact member)
    · exact member

theorem tripOpen_shared (b : Block) (i : Nat) (released : Nat → Bool) :
    (b.tripOpen i released).shared = b.shared := by
  refine forRange_inv (P := fun c : Block => c.shared = b.shared) rfl fun c q _ _ same => ?_
  rw [onPage_shared, ← same]
  beta_reduce
  split_ifs <;> rfl

/-- Every page the handler releases is heard. -/
theorem tripped_heard (tended : b.Tended) (inside : i < b.npages) (hj : j < b.npages)
    (host : b.hostPage j = b.hostPage i) (held : (b.page j).heldBy (j == i) = true)
    (noted : released j = true) :
    b.Heard (b.tripped i released) j := by
  have page := tripped_released inside hj host held noted
  have tracked : statusTracked (b.page j).status = true := by
    simp only [Page.heldBy, Bool.and_eq_true] at held
    exact held.1
  have plan := tended.plan j hj
  have bit := tended.epoch j hj
  refine ⟨?_, ?_, fun active visible => ?_, ?_, fun owed => ?_, ?_⟩
  · rw [page]
    simp [Page.released, tripPage]
  · rw [page]
    simp [Page.released, tripPage]
  · rw [page]
    cases written : (b.page j).epochDirty <;>
      simp [Page.released, tripPage, active, visible, tracked, Page.epochTracks, bit, written]
  · rw [page]
    cases active : b.planActive with
    | true => simp [Page.released, tripPage]
    | false =>
      have free : (b.page j).planHold = .free := by
        by_contra owed
        rw [plan owed] at active
        cases active
      simp [Page.released, tripPage, free]
  · have control := b.tripBaselines_toControl i (b.groupCount i)
    obtain ⟨snap, before⟩ := b.tripBaselines_rest i (b.groupCount i) j
    have copies := @tripRelease_copies (b.tripBaselines i (b.groupCount i)) i
    rw [control] at copies
    have made := @copies (plan owed) inside j hj host
    rw [before] at made
    rw [tripped, tripOpen_shared]
    exact made held owed
  · rw [page]
    cases hot : (b.page j).hot <;> simp [Page.released, tripPage, hot]

/-- Once the host page is open, every tracked page of it is to be writable. -/
theorem tripped_writable (tended : b.Tended) (inside : i < b.npages)
    (noted : ∀ q, b.hostPage q = b.hostPage i → q < b.npages →
      (b.page q).heldBy (q == i) = true → released q = true) (host : b.hostPage j = b.hostPage i)
    (hj : j < b.npages) (tracked : statusTracked (b.page j).status = true) :
    ((b.tripped i released).page j).nativeProt.writable = true := by
  by_cases held : (b.page j).heldBy (j == i) = true
  · rw [tripped_released inside hj host held (noted j host hj held)]
    refine Page.released_nativeProt tracked ?_
    by_cases free : (b.page j).planHold = .free
    · exact .inl free
    · exact .inr (tended.plan j hj free)
  · obtain ⟨unheldBit, is⟩ := @tripped_kept b i inside released j fun both => held both.2
    rw [is]
    simp only [Page.heldBy, tracked, Bool.true_and, Bool.or_eq_true, Bool.not_eq_true', not_or,
      Bool.not_eq_false] at held
    exact held.2

theorem tripped_status (inside : i < b.npages) (released : Nat → Bool) (j : Nat) :
    ((b.tripped i released).page j).status = (b.page j).status := by
  rw [tripped_page inside]
  split_ifs <;> simp [tripPage]

theorem Trips.served_eq {c : Block} {room : Nat → Bool} {protectOk answer : Bool}
    (ends : b.Trips room protectOk i answer c) (served : answer = true) :
    b.Tripping i ∧ ∃ released : Nat → Bool, c = b.tripped i released ∧
      ∀ q, b.hostPage q = b.hostPage i → q < b.npages →
        (b.page q).heldBy (q == i) = true → released q = true := by
  cases ends with
  | notMine => cases served
  | noBaseline => cases served
  | notProtected => cases served
  | served mine noted => exact ⟨mine, _, rfl, noted⟩

/-- A served fault cannot come again, and no page it lets the guest write is missed.  The
host page is to be writable and is mapped so; every tracked page of it that was not to be
writable is heard; and nothing changes anywhere else. -/
theorem trip_served_heard {c : Block} {room : Nat → Bool} {protectOk : Bool}
    (tended : b.Tended) (served : b.tripWord room protectOk i = (true, c)) :
    (c.groupNativeProt (b.hostPage i)).writable = true ∧
      c.os (b.hostPage i) = c.groupNativeProt (b.hostPage i) ∧
      (∀ j, j < b.npages → b.hostPage j = b.hostPage i → statusTracked (b.page j).status = true →
        (b.page j).nativeProt.writable = false → b.Heard c j) ∧
      (∀ j, b.hostPage j ≠ b.hostPage i → c.page j = b.page j) ∧
      ∀ g, g ≠ b.hostPage i → c.os g = b.os g := by
  have ends := b.tripWord_trips room protectOk i
  rw [served] at ends
  obtain ⟨⟨-, inside, tracked⟩, released, rfl, noted⟩ := ends.served_eq rfl
  have control := b.tripped_toControl i released
  refine ⟨?_, ?_, fun j hj host trackedHere unwritable => ?_, fun j other => ?_, fun g other => ?_⟩
  · have opened := @groupNativeProt_writable_of (b.tripped i released) i
    simp only [control, tripped_status inside] at opened
    exact opened inside (tripped_writable tended inside noted rfl inside tracked)
      fun j host hj => tripped_writable tended inside noted host hj
  · rw [tripped_os inside, if_pos rfl]
  · have held : (b.page j).heldBy (j == i) = true := by
      simp [Page.heldBy, trackedHere, unwritable]
    exact tripped_heard tended inside hj host held (noted j host hj held)
  · exact tripped_outside inside fun both => other both.1
  · rw [tripped_os inside, if_neg other]

end Block

end Served

/-- Two pages that share a host page, sealed, in an open epoch. -/
def Block.sharedPair : Block :=
  (((new (pagesAt 0 2) 1).get rfl).setUp
    [.activate, .op (.mmapFixed (pagesAt 0 2) .rw false false),
      .op (.write 0 (.fill 7)), .op (.write 1 (.fill 7))]).sealNow.2.epochBegin.2

theorem Block.tripWord_eq_trip_pair : sharedPair.tripWord (fun _ => true) true 0 =
    sharedPair.trip (fun _ => true) true 0 := tripWord_eq_trip (by decide +kernel)

/-- A write to the first page lets the guest write the second, which is heard with it. -/
theorem Block.trip_served_heard_pair : (sharedPair.tripWord (fun _ => true) true 0).1 = true ∧
      sharedPair.Heard (sharedPair.tripWord (fun _ => true) true 0).2 1 := by
  have served : (sharedPair.tripWord (fun _ => true) true 0).1 = true := by decide +kernel
  have tended : sharedPair.Tended := by
    refine ⟨?_, ?_⟩ <;> decide +kernel
  have answer : ∀ r : Bool × Block, r.1 = true → r = (true, r.2) := fun _ yes => Prod.ext yes rfl
  have heard := trip_served_heard tended (answer _ served)
  refine ⟨served, heard.2.2.1 1 ?_ ?_ ?_ ?_⟩ <;> decide +kernel

end MiniBox

