import MiniBox.Block.Alloc
import MiniBox.Block.Runs
import Mathlib.Logic.Relation

/-!
# What the memory calls can do

Every memory call is a sequence of two operations on runs of pages inside the
block: giving a run one status, and zeroing a run of allocated pages
(`MemStep`).  Each of them acts on every page of its run alike, and a page
changes in one of three ways (`Page.Called`).  A property of pages that survives
those three survives every memory call; the calls themselves are not looked at
again.
-/

namespace MiniBox

open Lib

/-! ## The three ways a page changes -/

variable {L : Page → Page → Prop} {b c : Block} {start count : Nat}

/-- The page given a status, in an open epoch or not. -/
def Page.restatus (epochActive : Bool) (status : UInt8) (p : Page) : Page :=
  (noteStatus 0 status (epochNoteStatusChange epochActive status ⟨p, {}⟩)).page

/-- The page zeroed by `free_pages`. -/
def Page.freed (planActive epochActive : Bool) (p : Page) : Page :=
  (freePage planActive epochActive 0 ⟨p, {}⟩).page

theorem freePage_page (planActive epochActive : Bool) (i : Nat) (x : Track) :
    (freePage planActive epochActive i x).page = x.page.freed planActive epochActive := by
  simp only [Page.freed, freePage, setDirty_page, zeroPage_page, epochNoteStatusChange_page,
    maybeSnapshot_page, planCapture_page]

/-- What one step of a memory call does to a page it reaches. -/
inductive Page.Called (c : Control) (p : Page) : Page → Prop where
  | protect {status : UInt8} : status ≠ stFree →
      Called c p ((p.restatus c.epochActive status).refreshed c.swappedIn)
  | keep : p.status ≠ stFree →
      Called c p ((p.freed c.planActive c.epochActive).refreshed c.swappedIn)
  | drop : p.status ≠ stFree →
      Called c p
        (((p.freed c.planActive c.epochActive).restatus c.epochActive stFree).refreshed c.swappedIn)

/-! ## One status for a run of pages -/

namespace Block

@[simp] theorem setProtections_toControl (b : Block) (start count : Nat) (status : UInt8) :
    (b.setProtections start count status).toControl = b.toControl := by
  simp [setProtections]

/-- The two page loops of `setProtections`, before the refresh. -/
theorem setProtections_loops (b : Block) (start count : Nat) (status : UInt8) (j : Nat) :
    ((b.onPages start count fun _ => epochNoteStatusChange b.epochActive status).onPages start count
        fun i => noteStatus i status).page j =
      if start ≤ j ∧ j < start + count then (b.page j).restatus b.epochActive status
      else b.page j := by
  rw [onPages_page (g := fun _ p => (MiniBox.noteStatus 0 status ⟨p, {}⟩).page) _
      (fun _ _ => by simp),
    onPages_page (g := fun _ p => (epochNoteStatusChange b.epochActive status ⟨p, {}⟩).page) _
      (fun _ _ => by simp)]
  split_ifs
  · simp [Page.restatus]
  · rfl

theorem setProtections_page (b : Block) (start count : Nat) (status : UInt8) (j : Nat) :
    (b.setProtections start count status).page j =
      if start ≤ j ∧ j < start + count then
        ((b.page j).restatus b.epochActive status).refreshed b.swappedIn
      else b.page j := by
  unfold setProtections
  rw [refreshRange_page_refreshed, setProtections_loops]
  split_ifs
  · simp
  · rfl

theorem setProtections_inStep (same : ∀ p, L p p) (bound : start + count ≤ b.npages)
    (status : UInt8) : b.InStep L (b.setProtections start count status) := by
  refine refreshRange_inStep same (by simp) (by simp) bound fun j out => ?_
  rw [setProtections_loops, if_neg out]

/-! ## A run of pages zeroed -/

@[simp] theorem freePages_toControl (b : Block) (start count : Nat) (adviseOnly : Bool) :
    (b.freePages start count adviseOnly).toControl = b.toControl := by
  unfold freePages
  cases adviseOnly <;> simp

theorem freePages_loop (b : Block) (start count j : Nat) :
    (b.onPages start count (freePage b.planActive b.epochActive)).page j =
      if start ≤ j ∧ j < start + count then (b.page j).freed b.planActive b.epochActive
      else b.page j :=
  b.onPages_page (g := fun _ p => p.freed b.planActive b.epochActive)
    (fun i x => freePage_page b.planActive b.epochActive i x) j

theorem freePages_page (b : Block) (start count : Nat) (adviseOnly : Bool) (j : Nat) :
    (b.freePages start count adviseOnly).page j =
      if start ≤ j ∧ j < start + count then
        (if adviseOnly then (b.page j).freed b.planActive b.epochActive
          else ((b.page j).freed b.planActive b.epochActive).restatus b.epochActive
            stFree).refreshed b.swappedIn
      else b.page j := by
  unfold freePages
  cases adviseOnly
  · simp only [Bool.false_eq_true, if_false]
    rw [setProtections_page, freePages_loop]
    split_ifs
    · simp
    · rfl
  · simp only [if_true]
    rw [refreshRange_page_refreshed, freePages_loop]
    split_ifs
    · simp
    · rfl

theorem freePages_inStep (same : ∀ p, L p p) (bound : start + count ≤ b.npages)
    (adviseOnly : Bool) : b.InStep L (b.freePages start count adviseOnly) := by
  unfold freePages
  cases adviseOnly
  · refine refreshRange_inStep same (by simp) (by simp) bound fun j out => ?_
    rw [setProtections_loops, if_neg out, freePages_loop, if_neg out]
  · refine refreshRange_inStep same (by simp) (by simp) bound fun j out => ?_
    rw [freePages_loop, if_neg out]

/-! ## The search stays in its arena -/

theorem freeRunEnd_le (b : Block) (lo hi : Nat) : ∀ (fuel j : Nat), j ≤ hi →
    b.freeRunEnd lo hi fuel j ≤ hi
  | 0, _, h => h
  | fuel + 1, j, h => by
    unfold freeRunEnd
    split
    next here =>
      split
      next whole =>
        refine b.freeRunEnd_le lo hi fuel _ ?_
        simp only [groupAllFree, groupCounts, Bool.and_eq_true, decide_eq_true_eq] at whole
        exact whole.1.2
      · refine b.freeRunEnd_le lo hi fuel _ ?_
        simp only [Bool.and_eq_true, decide_eq_true_eq] at here
        exact here.1
    · exact h

theorem le_freeRunEnd (b : Block) (lo hi : Nat) : ∀ (fuel j : Nat), j ≤ b.freeRunEnd lo hi fuel j
  | 0, _ => Nat.le_refl _
  | fuel + 1, j => by
    unfold freeRunEnd
    split
    · split
      · exact Nat.le_trans (Nat.le_add_right _ _) (b.le_freeRunEnd lo hi fuel _)
      · exact Nat.le_trans (Nat.le_add_right _ _) (b.le_freeRunEnd lo hi fuel _)
    · exact Nat.le_refl _

/-- `P` holds of every run of `npages` the low search may answer. -/
theorem findLow_of {b : Block} {lo hi npages : Nat} {P : Nat → Prop}
    (found : ∀ i, lo ≤ i → i < hi → b.mapFree i = true →
      npages ≤ b.freeRunEnd lo hi (hi - i) i - i → P i) :
    ∀ {fuel i : Nat} {best : Option (Nat × Nat)} {start : Nat}, lo ≤ i →
      (∀ run, best = some run → P run.1) →
      b.findLow lo hi npages fuel i best = some start → P start
  | 0, i, best, start, _, sofar, h => by
    rw [findLow, Option.map_eq_some_iff] at h
    obtain ⟨run, is, rfl⟩ := h
    exact sofar run is
  | fuel + 1, i, best, start, low, sofar, h => by
    rw [findLow] at h
    split at h
    · rw [Option.map_eq_some_iff] at h
      obtain ⟨run, is, rfl⟩ := h
      exact sofar run is
    next inside =>
      split at h
      next free =>
        refine b.findLow_of found (Nat.le_trans low (b.le_freeRunEnd lo hi _ i)) ?_ h
        intro run is
        split at is
        next fits =>
          cases is
          simp only [Bool.and_eq_true, decide_eq_true_eq] at fits
          exact found i low (by omega) free fits.1
        · exact sofar run is
      · split at h
        · exact b.findLow_of found (by omega) sofar h
        · exact b.findLow_of found (by omega) sofar h

/-- Where the high search ends: `[i, runEnd)` with `runEnd` at most `hi`. -/
theorem findHigh_of {b : Block} {lo hi npages : Nat} {Q : Nat → Nat → Prop}
    (taken : ∀ i, Q i i) (whole : ∀ i runEnd, Q i runEnd → freeGroup ≤ i →
      b.groupAllFree (i - freeGroup) lo hi = true → Q (i - freeGroup) runEnd)
    (one : ∀ i runEnd, Q i runEnd → lo < i → b.mapFree (i - 1) = true → Q (i - 1) runEnd) :
    ∀ {fuel i runEnd start : Nat}, Q i runEnd → i ≤ runEnd → runEnd ≤ hi →
      b.findHigh lo hi npages fuel i runEnd = some start →
      ∃ i runEnd, Q i runEnd ∧ lo ≤ i ∧ runEnd ≤ hi ∧ npages ≤ runEnd - i ∧ start = runEnd - npages
  | 0, _, _, _, _, _, _, h => by simp [findHigh] at h
  | fuel + 1, i, runEnd, start, run, order, bound, h => by
    rw [findHigh] at h
    split at h
    · simp at h
    next above =>
      split at h
      · exact b.findHigh_of taken whole one (taken _) (Nat.le_refl _) (by omega) h
      · split at h
        next group =>
          simp only [Bool.and_eq_true, decide_eq_true_eq] at group
          exact b.findHigh_of taken whole one (whole i runEnd run group.1.1 group.2)
            (by omega) bound h
        · split at h
          · exact b.findHigh_of taken whole one (taken _) (Nat.le_refl _) (by omega) h
          next free =>
            have step := one i runEnd run (by omega) (by simpa using free)
            split at h
            next fits =>
              cases h
              exact ⟨i - 1, runEnd, step, by omega, bound, fits, rfl⟩
            · exact b.findHigh_of taken whole one step (by omega) bound h

/-- The run the search answers lies in the arena. -/
theorem findFreePages_bounds {arenaStart arenaCount npages : Nat}
    (h : b.findFreePages arenaStart arenaCount npages = some start) :
    arenaStart ≤ start ∧ start + npages ≤ arenaStart + arenaCount := by
  unfold findFreePages at h
  split at h
  next big =>
    have positive : 4096 ≤ npages := big
    obtain ⟨i, runEnd, -, low, bound, fits, rfl⟩ :=
      b.findHigh_of (Q := fun _ _ => True) (fun _ => trivial) (fun _ _ _ _ _ => trivial)
        (fun _ _ _ _ _ => trivial) trivial (Nat.le_refl _) (Nat.le_refl _) h
    omega
  · refine b.findLow_of (P := fun start => arenaStart ≤ start ∧
      start + npages ≤ arenaStart + arenaCount) ?_ (Nat.le_refl _) (by simp) h
    intro i low high _ fits
    have := b.freeRunEnd_le arenaStart (arenaStart + arenaCount)
      (arenaStart + arenaCount - i) i (by omega)
    have := b.le_freeRunEnd arenaStart (arenaStart + arenaCount)
      (arenaStart + arenaCount - i) i
    omega

end Block

/-! ## Calls as steps -/

/-- One of the two operations every memory call is made of. -/
inductive MemStep (b : Block) : Block → Prop where
  | protect {start count : Nat} {status : UInt8} : status ≠ stFree → start + count ≤ b.npages →
      MemStep b (b.setProtections start count status)
  | free {start count : Nat} (adviseOnly : Bool) : start + count ≤ b.npages →
      (∀ i, start ≤ i → i < start + count → (b.page i).status ≠ stFree) →
      MemStep b (b.freePages start count adviseOnly)

abbrev MemSteps : Block → Block → Prop := Relation.ReflTransGen MemStep

theorem allPages_iff {p : Nat → Bool} :
    allPages start count p = true ↔ ∀ i, start ≤ i → i < start + count → p i = true := by
  simp only [allPages, List.all_eq_true, List.mem_range'_1, and_imp]

theorem MemStep.toControl (h : MemStep b c) : c.toControl = b.toControl := by
  cases h <;> simp

theorem MemSteps.toControl (h : MemSteps b c) : c.toControl = b.toControl := by
  induction h with
  | refl => rfl
  | tail _ step ih => rw [step.toControl, ih]

namespace Block

theorem zeroOverlap_steps {last : Nat} : ∀ (fuel i : Nat) (b : Block), last ≤ b.npages →
    MemSteps b (b.zeroOverlap last fuel i)
  | 0, _, _, _ => .refl
  | fuel + 1, i, b, bound => by
    unfold zeroOverlap
    split
    · exact .refl
    next inside =>
      split
      · exact zeroOverlap_steps fuel (i + 1) b bound
      · have lo := le_firstFrom (fun j => !b.isFree j) (last - i) i
        have hi := firstFrom_le (fun j => !b.isFree j) (last - i) i
        have step : MemStep b (b.freePages i
            (firstFrom (fun j => !b.isFree j) (last - i) i - i) true) := by
          refine .free true (by omega) fun k hlo hhi => ?_
          have passed : (!b.isFree k) = true :=
            @firstFrom_passed (fun j => !b.isFree j) (last - i) i k hlo (by omega)
          simpa [isFree] using passed
        exact .head step (zeroOverlap_steps fuel _ _ (by rw [step.toControl]; exact bound))

theorem mmapFixed_steps (b : Block) (addr : Range) (prot : Prot)
    (noReplace zeroOverlap : Bool) : MemSteps b
    (b.mmapFixed addr prot noReplace zeroOverlap).2 := by
  unfold mmapFixed
  split
  · exact .refl
  next start count valid =>
    have bound := (Control.validate_bounds valid).2
    split
    · exact .refl
    · have zeroed : MemSteps b
          (if zeroOverlap then b.zeroOverlap (start + count) count start else b) := by
        split
        · exact zeroOverlap_steps count start b bound
        · exact .refl
      exact zeroed.tail (.protect (protStatus_ne_free prot) (by rw [zeroed.toControl]; exact bound))

theorem mprotect_steps (b : Block) (addr : Range) (prot : Prot) :
    MemSteps b (b.mprotect addr prot).2 := by
  unfold mprotect
  split
  · exact .refl
  next start count valid =>
    split
    · exact .refl
    · exact .single (.protect (protStatus_ne_free prot) (Control.validate_bounds valid).2)

theorem munmapImpl_steps (b : Block) (addr : Range) (adviseOnly : Bool) :
    MemSteps b (b.munmapImpl addr adviseOnly).2 := by
  unfold munmapImpl
  split
  · exact .refl
  next start count valid =>
    split
    · exact .refl
    next allocated =>
      refine .single (.free _ (Control.validate_bounds valid).2 fun i lo hi => ?_)
      simp only [Bool.not_eq_true', Bool.not_eq_false] at allocated
      simpa [isFree] using allPages_iff.mp allocated i lo hi

theorem mmap_steps (b : Block) (addr : Range) (prot : Prot) (arena : Range)
    (noReplace zeroOverlap : Bool) :
    MemSteps b (b.mmap addr prot arena noReplace zeroOverlap).2 := by
  unfold mmap
  split
  · exact .refl
  · split
    · split
      · exact .refl
      · split
        · exact .refl
        next arenaStart arenaCount valid =>
          dsimp only
          split
          · exact .refl
          next start found =>
            have inside := findFreePages_bounds found
            have bound := (Control.validate_bounds valid).2
            exact .single (.protect (protStatus_ne_free prot) (by omega))
    · have steps := b.mmapFixed_steps addr prot noReplace zeroOverlap
      split
      next e c is =>
        rw [is] at steps
        exact steps
      next c is =>
        rw [is] at steps
        exact steps

theorem mremap_steps (b : Block) (addr : Range) (newSize : UInt64) :
    MemSteps b (b.mremap addr newSize).2 := by
  unfold mremap
  split
  · exact .refl
  · split
    · exact .refl
    · split
      · exact .refl
      next start count valid =>
        split
        next grows =>
          split
          · exact .refl
          next fullStart fullCount full =>
            split
            · exact .refl
            next allocated =>
              split
              · exact .refl
              · have bound := Control.validate_bounds valid
                have fullBound := Control.validate_bounds full
                have same : fullStart = start := by
                  rw [(Control.validate_eq valid).1, (Control.validate_eq full).1]
                simp only [Bool.not_eq_true', Bool.not_eq_false] at allocated
                have first := allPages_iff.mp allocated start (Nat.le_refl _) (by omega)
                exact .single (.protect (by simpa [isFree] using first) (by omega))
        · split
          · exact .refl
          · have steps := b.munmapImpl_steps ⟨addr.start + newSize, addr.size - newSize⟩ false
            split
            next e c is =>
              rw [is] at steps
              exact steps
            next c is =>
              rw [is] at steps
              exact steps

end Block

/-! ## What the steps do to pages and protections -/

theorem MemStep.page {b c : Block} (h : MemStep b c) (j : Nat) :
    c.page j = b.page j ∨ j < b.npages ∧ Page.Called b.toControl (b.page j) (c.page j) := by
  cases h with
  | @protect start count status allocates bound =>
    rw [Block.setProtections_page]
    split_ifs with range
    · exact .inr ⟨by omega, .protect allocates⟩
    · exact .inl rfl
  | @free start count adviseOnly bound allocated =>
    rw [Block.freePages_page]
    split_ifs with range advise
    · exact .inr ⟨by omega, .keep (allocated j range.1 range.2)⟩
    · exact .inr ⟨by omega, .drop (allocated j range.1 range.2)⟩
    · exact .inl rfl

theorem MemStep.inStep (same : ∀ p, L p p) (h : MemStep b c) : b.InStep L c := by
  cases h with
  | protect _ bound => exact Block.setProtections_inStep same bound _
  | free adviseOnly bound _ => exact Block.freePages_inStep same bound _

/-- What each of the three changes keeps of a page, every memory call keeps of
all pages. -/
theorem MemSteps.keeps (h : MemSteps b c) {P : Nat → Page → Prop}
    (step : ∀ i p q, i < b.npages → Page.Called b.toControl p q → P i p → P i q)
    (initial : ∀ i, P i (b.page i)) : ∀ i, P i (c.page i) := by
  induction h with
  | refl => exact initial
  | @tail d e steps last ih =>
    intro i
    rcases last.page i with same | ⟨inside, called⟩
    · rw [same]
      exact ih i
    · rw [toControl steps] at inside called
      exact step i _ _ inside called (ih i)

end MiniBox
