import Mathlib.Order.Basic

/-!
# Runs of free places

A map says of each place whether it is free.  `FreeRun` is a maximal run of free places
inside a window `[lo, hi)`.  Two searches for room are specified over runs: `BestFit`, the
start of the shortest run that fits, the lowest of those, and `HighFit`, the top places of
the highest run that fits.  Each has at most one answer.

A walk that goes up the window keeps the best of the runs below it (`BestBelow`); one that
comes down keeps the run it is in and that none above it fits (`Tried`).
-/

namespace MiniBox.Lib

/-- A maximal run `[s, e)` of free places in `[lo, hi)`. -/
structure FreeRun (free : Nat → Bool) (lo hi s e : Nat) : Prop where
  nonempty : s < e
  low : lo ≤ s
  high : e ≤ hi
  all : ∀ i, s ≤ i → i < e → free i = true
  start : s = lo ∨ free (s - 1) = false
  finish : e = hi ∨ free e = false

section FreeRun

variable {free : Nat → Bool} {lo hi : Nat}

theorem FreeRun.not_taken {s e i : Nat} (h : FreeRun free lo hi s e) (taken : free i = false) :
    i < s ∨ e ≤ i := by
  rcases Nat.lt_or_ge i s with before | from_
  · exact .inl before
  · rcases Nat.lt_or_ge i e with within | after
    · rw [h.all i from_ within] at taken
      cases taken
    · exact .inr after

/-- Two runs are one run, or apart. -/
theorem FreeRun.apart {s e t f : Nat} (h : FreeRun free lo hi s e) (k : FreeRun free lo hi t f) :
    s = t ∧ e = f ∨ e ≤ t ∨ f ≤ s := by
  rcases Nat.lt_or_ge t e with overlap | apart
  · rcases Nat.lt_or_ge s f with overlap' | apart
    · have starts : s = t := by
        rcases Nat.lt_trichotomy s t with less | same | more
        · rcases k.start with edge | taken
          · have := h.low
            omega
          · rcases h.not_taken taken with before | after <;> omega
        · exact same
        · rcases h.start with edge | taken
          · have := k.low
            omega
          · rcases k.not_taken taken with before | after <;> omega
      have ends : e = f := by
        rcases Nat.lt_trichotomy e f with less | same | more
        · rcases h.finish with edge | taken
          · have := k.high
            omega
          · rcases k.not_taken taken with before | after <;> omega
        · exact same
        · rcases k.finish with edge | taken
          · have := h.high
            omega
          · rcases h.not_taken taken with before | after <;> omega
      exact .inl ⟨starts, ends⟩
    · exact .inr (.inr apart)
  · exact .inr (.inl apart)

/-- Free places up to a boundary are the end of a run. -/
theorem exists_freeRun {e : Nat} (high : e ≤ hi) (finish : e = hi ∨ free e = false) :
    ∀ {i : Nat}, lo ≤ i → i < e → (∀ j, i ≤ j → j < e → free j = true) →
      ∃ s, s ≤ i ∧ FreeRun free lo hi s e
  | 0, low, within, all => by
    obtain rfl : lo = 0 := by omega
    exact ⟨0, Nat.le_refl 0, within, Nat.le_refl 0, high, all, .inl rfl, finish⟩
  | i + 1, low, within, all => by
    rcases Nat.eq_or_lt_of_le low with edge | above
    · exact ⟨i + 1, Nat.le_refl _, within, low, high, all, .inl edge.symm, finish⟩
    · cases before : free i with
      | false => exact ⟨i + 1, Nat.le_refl _, within, low, high, all, .inr before, finish⟩
      | true =>
        obtain ⟨s, below, run⟩ := exists_freeRun high finish (i := i) (by omega) (by omega)
          fun j from_ until_ => by
            rcases Nat.eq_or_lt_of_le from_ with rfl | later
            · exact before
            · exact all j later until_
        exact ⟨s, by omega, run⟩

end FreeRun

/-! ## What a search answers -/

variable {free : Nat → Bool} {lo hi n : Nat} {x y : Option Nat}

/-- The start of the shortest run of at least `n` places, the lowest of those; no run has
that many if there is none. -/
def BestFit (free : Nat → Bool) (lo hi n : Nat) : Option Nat → Prop
  | none => ∀ s e, FreeRun free lo hi s e → e - s < n
  | some r => ∃ e, FreeRun free lo hi r e ∧ n ≤ e - r ∧ ∀ t f, FreeRun free lo hi t f →
      n ≤ f - t → e - r < f - t ∨ e - r = f - t ∧ r ≤ t

/-- The top `n` places of the highest run of at least `n`. -/
def HighFit (free : Nat → Bool) (lo hi n : Nat) : Option Nat → Prop
  | none => ∀ s e, FreeRun free lo hi s e → e - s < n
  | some r => ∃ s e, FreeRun free lo hi s e ∧ n ≤ e - s ∧ r + n = e ∧ ∀ t f,
      FreeRun free lo hi t f → n ≤ f - t → f ≤ e

theorem BestFit.unique (hx : BestFit free lo hi n x) (hy : BestFit free lo hi n y) : x = y := by
  cases x with
  | none =>
    cases y with
    | none => rfl
    | some r =>
      obtain ⟨e, run, fits, -⟩ := hy
      have := hx r e run
      omega
  | some r =>
    obtain ⟨e, run, fits, best⟩ := hx
    cases y with
    | none =>
      have := hy r e run
      omega
    | some t =>
      obtain ⟨f, run', fits', best'⟩ := hy
      have first := best t f run' fits'
      have second := best' r e run fits
      rw [show r = t by omega]

theorem HighFit.unique (hx : HighFit free lo hi n x) (hy : HighFit free lo hi n y) : x = y := by
  cases x with
  | none =>
    cases y with
    | none => rfl
    | some r =>
      obtain ⟨s, e, run, fits, -⟩ := hy
      have := hx s e run
      omega
  | some r =>
    obtain ⟨s, e, run, fits, top, best⟩ := hx
    cases y with
    | none =>
      have := hy s e run
      omega
    | some t =>
      obtain ⟨s', e', run', fits', top', best'⟩ := hy
      have first := best s' e' run' fits'
      have second := best' s e run fits
      rw [show r = t by omega]

/-! ## Going up -/

section Low

variable {free : Nat → Bool} {lo hi n : Nat}

/-- No run goes over the edge below `i`. -/
def Edge (free : Nat → Bool) (lo hi i : Nat) : Prop :=
  i = lo ∨ hi ≤ i ∨ free (i - 1) = false ∨ free i = false

/-- The best of the runs that end at `i` or below, as its start and length. -/
def BestBelow (free : Nat → Bool) (lo hi n i : Nat) : Option (Nat × Nat) → Prop
  | none => ∀ s e, FreeRun free lo hi s e → e ≤ i → e - s < n
  | some (r, len) => FreeRun free lo hi r (r + len) ∧ r + len ≤ i ∧ n ≤ len ∧
      ∀ t f, FreeRun free lo hi t f → f ≤ i → n ≤ f - t → len < f - t ∨ len = f - t ∧ r ≤ t

theorem BestBelow.start : BestBelow free lo hi n lo none := by
  intro s e run below
  have := run.nonempty
  have := run.low
  omega

theorem BestBelow.done {i : Nat} (high : hi ≤ i) {best : Option (Nat × Nat)}
    (h : BestBelow free lo hi n i best) : BestFit free lo hi n (best.map Prod.fst) := by
  cases best with
  | none =>
    intro s e run
    exact h s e run (Nat.le_trans run.high high)
  | some best =>
    obtain ⟨r, len⟩ := best
    obtain ⟨run, -, fits, least⟩ := h
    refine ⟨r + len, run, by omega, ?_⟩
    intro t f run' fits'
    have := least t f run' (Nat.le_trans run'.high high) fits'
    omega

/-- Places that are all taken end no run. -/
theorem BestBelow.skip {i j : Nat} (above : i ≤ j) (taken : ∀ k, i ≤ k → k < j → free k = false)
    {best : Option (Nat × Nat)} (h : BestBelow free lo hi n i best) :
    BestBelow free lo hi n j best := by
  have below : ∀ s e, FreeRun free lo hi s e → e ≤ j → e ≤ i := by
    intro s e run high
    have nonempty := run.nonempty
    have last := run.all (e - 1) (by omega) (by omega)
    by_contra more
    rw [taken (e - 1) (by omega) (by omega)] at last
    cases last
  cases best with
  | none =>
    intro s e run high
    exact h s e run (below s e run high)
  | some best =>
    obtain ⟨r, len⟩ := best
    obtain ⟨run, bound, fits, least⟩ := h
    exact ⟨run, Nat.le_trans bound above, fits,
      fun t f run' high => least t f run' (below t f run' high)⟩

/-- The run after `i` replaces the best one when it is shorter. -/
theorem BestBelow.step {i len : Nat} (run : FreeRun free lo hi i (i + len))
    {best : Option (Nat × Nat)} (h : BestBelow free lo hi n i best) :
    BestBelow free lo hi n (i + len)
      (if decide (n ≤ len) && best.all (fun old => decide (len < old.2)) then some (i, len)
        else best) := by
  have nonempty := run.nonempty
  have below : ∀ s e, FreeRun free lo hi s e → e ≤ i + len → e ≤ i ∨ s = i ∧ e = i + len := by
    intro s e other high
    rcases other.apart run with same | before | after
    · exact .inr same
    · exact .inl before
    · have := other.nonempty
      omega
  cases best with
  | none =>
    rcases Nat.lt_or_ge len n with short | fits
    · rw [if_neg (by simp [short])]
      intro s e other high
      rcases below s e other high with before | ⟨rfl, rfl⟩
      · exact h s e other before
      · omega
    · rw [if_pos (by simp [fits])]
      refine ⟨run, Nat.le_refl _, fits, ?_⟩
      intro t f other high fits'
      rcases below t f other high with before | ⟨rfl, rfl⟩
      · have := h t f other before
        omega
      · exact .inr ⟨by omega, Nat.le_refl _⟩
  | some old =>
    obtain ⟨r, shortest⟩ := old
    obtain ⟨kept, bound, long, least⟩ := h
    simp only [Option.all_some, Bool.and_eq_true, decide_eq_true_eq]
    split_ifs with better
    · refine ⟨run, Nat.le_refl _, better.1, ?_⟩
      intro t f other high fits'
      rcases below t f other high with before | ⟨rfl, rfl⟩
      · have := least t f other before fits'
        omega
      · exact .inr ⟨by omega, Nat.le_refl _⟩
    · refine ⟨kept, by omega, long, ?_⟩
      intro t f other high fits'
      rcases below t f other high with before | ⟨rfl, rfl⟩
      · exact least t f other before fits'
      · -- the run just passed is not shorter, and starts above
        omega

end Low

/-! ## Coming down -/

section High

variable {free : Nat → Bool} {lo hi n : Nat} {i e m : Nat}

/-- The walk has come down to `i`: the places up to `e` are free and too few, and no run
that fits ends above `e`. -/
structure Tried (free : Nat → Bool) (lo hi n i e : Nat) : Prop where
  le : i ≤ e
  high : e ≤ hi
  all : ∀ j, i ≤ j → j < e → free j = true
  finish : e = hi ∨ free e = false
  few : e - i < n
  above : ∀ t f, FreeRun free lo hi t f → n ≤ f - t → f ≤ e

theorem Tried.start (pos : 0 < n) : Tried free lo hi n hi hi :=
  ⟨Nat.le_refl _, Nat.le_refl _, fun _ _ _ => by omega, .inl rfl, by omega,
    fun _ _ run _ => run.high⟩

section

variable (h : Tried free lo hi n i e)
include h

/-- A run that fits ends at `e`, or at `i` or below. -/
theorem Tried.ends {t f : Nat} (run : FreeRun free lo hi t f) (fits : n ≤ f - t) :
    f ≤ i ∨ f = e ∧ t < i := by
  have high := h.above t f run fits
  have few := h.few
  rcases Nat.eq_or_lt_of_le high with rfl | less
  · exact .inr ⟨rfl, by omega⟩
  · left
    by_contra more
    have free_ := h.all f (by omega) less
    rcases run.finish with top | taken
    · have := h.high
      omega
    · rw [taken] at free_
      cases free_

/-- Taken places below `i` put an end to every run above them. -/
theorem Tried.taken (below : m < i) (taken : ∀ j, m ≤ j → j < i → free j = false) :
    Tried free lo hi n m m := by
  have le := h.le
  have high := h.high
  have few := h.few
  refine ⟨Nat.le_refl _, by omega, fun _ _ _ => by omega, .inr (taken m (Nat.le_refl _) below),
    by omega, ?_⟩
  intro t f run fits
  have nonempty := run.nonempty
  rcases h.ends run fits with low | ⟨top, start⟩
  · by_contra more
    rcases run.not_taken (taken (f - 1) (by omega) (by omega)) with before | after <;> omega
  · rcases run.not_taken (taken (i - 1) (by omega) (by omega)) with before | after <;> omega

/-- Free places below `i` join the run, while it is too short. -/
theorem Tried.join (below : m ≤ i) (all : ∀ j, m ≤ j → j < i → free j = true) (few : e - m < n) :
    Tried free lo hi n m e := by
  refine ⟨Nat.le_trans below h.le, h.high, ?_, h.finish, few, h.above⟩
  intro j from_ until_
  rcases Nat.lt_or_ge j i with new | old
  · exact all j from_ new
  · exact h.all j old until_

/-- At the bottom there is nothing left to try. -/
theorem Tried.none (bottom : i ≤ lo) : HighFit free lo hi n Option.none := by
  intro s f run
  by_contra fits
  have low := run.low
  have nonempty := run.nonempty
  rcases h.ends run (by omega) with below | ⟨-, start⟩ <;> omega

/-- The run is long enough with the place below. -/
theorem Tried.found (low : lo < i) (one : free (i - 1) = true) (fits : n ≤ e - (i - 1)) :
    HighFit free lo hi n (some (e - n)) := by
  have le := h.le
  obtain ⟨s, start, run⟩ := exists_freeRun h.high h.finish
    (show lo ≤ i - 1 by omega) (by omega) fun j from_ until_ => by
      rcases Nat.eq_or_lt_of_le from_ with rfl | above
      · exact one
      · exact h.all j (by omega) until_
  exact ⟨s, e, run, by omega, by omega, h.above⟩

end

end High

end MiniBox.Lib
