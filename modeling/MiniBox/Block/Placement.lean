import MiniBox.Lib.FreeRun
import MiniBox.Block.Life

/-!
# Where a new mapping goes

`find_free_pages` crosses a group of pages in one step when the group's count says that
all or none of them are free.  The counts are kept by every change of a status
(`Block.Recorded`), so they only ever say what the allocation map says (`Block.Counted`), and
the search answers what it would without them: the lowest of the shortest runs that fit, or
for a big request the top of the highest run that fits.
-/

namespace MiniBox

open Lib

/-! ## What the counts say -/

/-- In the window `[lo, hi)` a count of none or all is right. -/
structure Block.Counted (b : Block) (lo hi : Nat) : Prop where
  taken : ∀ first i, b.groupTaken first lo hi = true → first ≤ i → i < first + freeGroup →
    b.mapFree i = false
  free : ∀ first i, b.groupAllFree first lo hi = true → first ≤ i → i < first + freeGroup →
    b.mapFree i = true

theorem Block.Recorded.groupTaken {b : Block} (h : b.Recorded) {first lo hi i : Nat}
    (counted : b.groupTaken first lo hi = true) (bound : hi ≤ b.npages) (low : first ≤ i)
    (high : i < first + freeGroup) : (b.page i).status ≠ stFree := by
  have size : freeGroup = 512 := rfl
  simp only [Block.groupTaken, groupCounts, Bool.and_eq_true, decide_eq_true_eq, beq_iff_eq,
    h.free] at counted
  obtain ⟨⟨⟨aligned, -⟩, fits⟩, count⟩ := counted
  rw [size] at aligned high fits
  have group : i >>> groupShiftFree = first >>> groupShiftFree := by
    rw [Nat.shiftRight_eq_div_pow, Nat.shiftRight_eq_div_pow]
    simp only [groupShiftFree]
    omega
  intro free
  have none_ := countBelow_eq_zero.mp count i (by omega)
  simp [group, free] at none_

theorem Block.Recorded.counted {b : Block} (h : b.Recorded) {lo hi : Nat} (bound : hi ≤ b.npages) :
    b.Counted lo hi := by
  constructor
  · intro first i counted low high
    have taken := h.groupTaken counted bound low high
    rw [Ne, ← h.mapFree] at taken
    exact Bool.eq_false_iff.mpr taken
  · intro first i counted low high
    exact (h.mapFree i).mpr (h.groupAllFree counted bound low high)

/-- The block with counts that say nothing: its search is the walk page by page. -/
def Block.uncounted (b : Block) : Block :=
  { b with shared := { b.shared with groupFree := fun _ => freeGroup + 1 } }

theorem Block.uncounted_counted (b : Block) (lo hi : Nat) : b.uncounted.Counted lo hi := by
  constructor
  · intro first i counted
    simp [groupTaken, groupCounts, uncounted] at counted
  · intro first i counted
    simp [groupAllFree, groupCounts, uncounted] at counted

/-! ## The search -/

section Search

variable {b : Block} {lo hi npages : Nat}

/-- The walk over free pages stops at the end of their run. -/
theorem Block.Counted.freeRunEnd (counted : b.Counted lo hi) :
    ∀ {fuel j : Nat}, j ≤ hi → hi ≤ j + fuel →
      j ≤ b.freeRunEnd lo hi fuel j ∧ b.freeRunEnd lo hi fuel j ≤ hi ∧
      (∀ i, j ≤ i → i < b.freeRunEnd lo hi fuel j → b.mapFree i = true) ∧
      (b.freeRunEnd lo hi fuel j = hi ∨ b.mapFree (b.freeRunEnd lo hi fuel j) = false)
  | 0, j, inside, enough => by
    rw [Block.freeRunEnd]
    exact ⟨Nat.le_refl _, inside, fun _ _ _ => by omega, .inl (by omega)⟩
  | fuel + 1, j, inside, enough => by
    rw [Block.freeRunEnd]
    split_ifs with free group
    · have fits : j + freeGroup ≤ hi := by
        simp only [Block.groupAllFree, groupCounts, Bool.and_eq_true, decide_eq_true_eq] at group
        exact group.1.2
      have size : freeGroup = 512 := rfl
      obtain ⟨ge, le, all, stop⟩ := counted.freeRunEnd fits
        (show hi ≤ j + freeGroup + fuel by omega)
      refine ⟨by omega, le, ?_, stop⟩
      intro i low high
      rcases Nat.lt_or_ge i (j + freeGroup) with within | past
      · exact counted.free j i group low within
      · exact all i past high
    · simp only [Bool.and_eq_true, decide_eq_true_eq] at free
      obtain ⟨ge, le, all, stop⟩ := counted.freeRunEnd (show j + 1 ≤ hi by omega)
        (show hi ≤ j + 1 + fuel by omega)
      refine ⟨by omega, le, ?_, stop⟩
      intro i low high
      rcases Nat.eq_or_lt_of_le low with rfl | past
      · exact free.2
      · exact all i past high
    · refine ⟨Nat.le_refl _, inside, fun _ _ _ => by omega, ?_⟩
      rcases Nat.eq_or_lt_of_le inside with top | below
      · exact .inl top
      · right
        simpa [below] using free

theorem Block.Counted.findLow (counted : b.Counted lo hi) :
    ∀ {fuel i : Nat} {best : Option (Nat × Nat)}, lo ≤ i → hi ≤ i + fuel →
      Edge b.mapFree lo hi i → BestBelow b.mapFree lo hi npages i best →
      BestFit b.mapFree lo hi npages (b.findLow lo hi npages fuel i best)
  | 0, i, best, low, enough, edge, below => below.done (by omega)
  | fuel + 1, i, best, low, enough, edge, below => by
    rw [Block.findLow]
    split_ifs with done free group
    · exact below.done done
    · -- a run starts here
      obtain ⟨ge, le, all, stop⟩ := counted.freeRunEnd (show i ≤ hi by omega)
        (show hi ≤ i + (hi - i) by omega)
      generalize b.freeRunEnd lo hi (hi - i) i = j at ge le all stop
      have more : i < j := by
        rcases Nat.eq_or_lt_of_le ge with rfl | more
        · rcases stop with top | taken
          · omega
          · rw [free] at taken
            cases taken
        · exact more
      have start : i = lo ∨ b.mapFree (i - 1) = false := by
        rcases edge with first | past | taken | taken
        · exact .inl first
        · omega
        · exact .inr taken
        · rw [free] at taken
          cases taken
      obtain ⟨len, rfl⟩ : ∃ len, j = i + len := ⟨j - i, by omega⟩
      have step := below.step ⟨more, low, le, all, start, stop⟩
      dsimp only
      rw [Nat.add_sub_cancel_left]
      refine counted.findLow (by omega) (by omega) ?_ step
      rcases stop with top | taken
      · exact .inr (.inl (Nat.le_of_eq top.symm))
      · exact .inr (.inr (.inr taken))
    · have size : freeGroup = 512 := rfl
      refine counted.findLow (by omega) (by omega) ?_
        (below.skip (by omega) fun k from_ until_ => counted.taken i k group from_ until_)
      exact .inr (.inr (.inl (counted.taken i _ group (by omega) (by omega))))
    · have taken : b.mapFree i = false := Bool.eq_false_iff.mpr free
      refine counted.findLow (by omega) (by omega) ?_ (below.skip (by omega) ?_)
      · exact .inr (.inr (.inl taken))
      · intro k from_ until_
        obtain rfl : k = i := by omega
        exact taken

theorem Block.Counted.findHigh (counted : b.Counted lo hi) :
    ∀ {fuel i runEnd : Nat}, i ≤ lo + fuel → Tried b.mapFree lo hi npages i runEnd →
      HighFit b.mapFree lo hi npages (b.findHigh lo hi npages fuel i runEnd)
  | 0, i, runEnd, enough, tried => tried.none (by omega)
  | fuel + 1, i, runEnd, enough, tried => by
    have size : freeGroup = 512 := rfl
    rw [Block.findHigh]
    split_ifs with bottom taken all here fits
    · exact tried.none bottom
    · simp only [Bool.and_eq_true, decide_eq_true_eq] at taken
      refine counted.findHigh (by omega) (tried.taken (by omega) ?_)
      intro j from_ until_
      exact counted.taken _ j taken.2 from_ (by omega)
    · simp only [Bool.and_eq_true, decide_eq_true_eq] at all
      refine counted.findHigh (by omega) (tried.join (by omega) ?_ all.1.2)
      intro j from_ until_
      exact counted.free _ j all.2 from_ (by omega)
    · refine counted.findHigh (by omega) (tried.taken (by omega) ?_)
      intro j from_ until_
      obtain rfl : j = i - 1 := by omega
      simpa using here
    · exact tried.found (by omega) (by simpa using here) fits
    · refine counted.findHigh (by omega) (tried.join (by omega) ?_ (by omega))
      intro j from_ until_
      obtain rfl : j = i - 1 := by omega
      simpa using here

end Search

/-- What `find_free_pages` is for: where `npages` pages go in the window `[lo, hi)`. -/
def Place (free : Nat → Bool) (lo hi npages : Nat) (answer : Option Nat) : Prop :=
  if bigRequestPages ≤ npages then HighFit free lo hi npages answer
  else BestFit free lo hi npages answer

theorem Block.Counted.findFreePages {b : Block} {arenaStart arenaCount : Nat}
    (counted : b.Counted arenaStart (arenaStart + arenaCount)) (npages : Nat) :
    Place b.mapFree arenaStart (arenaStart + arenaCount) npages
      (b.findFreePages arenaStart arenaCount npages) := by
  have large : 0 < bigRequestPages := by decide
  unfold Place Block.findFreePages
  split_ifs with big
  · exact counted.findHigh (Nat.le_refl _) (.start (by omega))
  · exact counted.findLow (Nat.le_refl _) (Nat.le_refl _) (.inl rfl) .start

theorem Place.unique {free : Nat → Bool} {lo hi npages : Nat} {x y : Option Nat}
    (hx : Place free lo hi npages x) (hy : Place free lo hi npages y) : x = y := by
  unfold Place at hx hy
  split_ifs at hx hy with big
  · exact hx.unique hy
  · exact hx.unique hy

theorem Place.none_iff {free : Nat → Bool} {lo hi npages : Nat} {answer : Option Nat}
    (h : Place free lo hi npages answer) :
    answer = none ↔ ∀ s e, FreeRun free lo hi s e → e - s < npages := by
  unfold Place at h
  split_ifs at h with big
  · cases answer with
    | none => exact ⟨fun _ => h, fun _ => rfl⟩
    | some r =>
      obtain ⟨s, e, run, fits, -⟩ := h
      refine ⟨fun is => (by cases is), fun short => ?_⟩
      have := short s e run
      omega
  · cases answer with
    | none => exact ⟨fun _ => h, fun _ => rfl⟩
    | some r =>
      obtain ⟨e, run, fits, -⟩ := h
      refine ⟨fun is => (by cases is), fun short => ?_⟩
      have := short r e run
      omega

/-- At any time the search answers what the walk without counts answers: the place of the
shortest run that fits, or the top of the highest, and nothing exactly when no run fits. -/
theorem Life.findFreePages_eq {groupShift : Nat} {b : Block} (h : Life groupShift b)
    {arenaStart arenaCount : Nat} (bound : arenaStart + arenaCount ≤ b.npages) (npages : Nat) :
    b.findFreePages arenaStart arenaCount npages =
        b.uncounted.findFreePages arenaStart arenaCount npages ∧
      Place (fun i => (b.page i).status == stFree) arenaStart (arenaStart + arenaCount) npages
        (b.findFreePages arenaStart arenaCount npages) ∧
      (b.findFreePages arenaStart arenaCount npages = none ↔
        ∀ s e, FreeRun (fun i => (b.page i).status == stFree) arenaStart (arenaStart + arenaCount)
          s e → e - s < npages) := by
  have map : (fun i => (b.page i).status == stFree) = b.mapFree := by
    funext i
    rw [Block.mapFree, (h.recorded.consistent i).status]
  have placed := (h.recorded.counted bound).findFreePages npages
  have walked := (b.uncounted_counted arenaStart (arenaStart + arenaCount)).findFreePages npages
  rw [map]
  exact ⟨placed.unique walked, placed, placed.none_iff⟩

/-- A block of 520 pages, the one after its first group mapped. -/
def Block.gapped : Block :=
  ((new (pagesAt 0 520) 0).get rfl).setUp [.op (.mmapFixed (pagesAt 512 1) .rw false false)]

/-- The free group is crossed in one step, and the short run behind it fits better. -/
theorem Life.findFreePages_eq_gapped : Block.gapped.groupAllFree 0 0 520 = true ∧
      Block.gapped.findFreePages 0 520 2 = some 513 ∧
      Block.gapped.uncounted.findFreePages 0 520 2 = some 513 := by
  have built : Built 0 Block.gapped := Built.setUp (.new (Option.some_get _).symm) _
  have found : Block.gapped.findFreePages 0 520 2 = some 513 := by decide +kernel
  have same := (findFreePages_eq built.life (show 0 + 520 ≤ Block.gapped.npages by decide +kernel)
    2).1
  exact ⟨by decide +kernel, found, same.symm.trans found⟩

end MiniBox
