import Mathlib.Order.Basic

/-!
# Turns around a circle

Numbers below `n` stand on a circle.  `ahead n x a` is how far `a` is from `x` going up, and a
turn goes to the nearest number that is ready: no ready number is passed over (`Nearest`).

From one turn of `x` to its next, the turns go up and away from `x` (`Round.ascends`), so each
number has at most one, and a number that is ready all the while has one (`Round.visits`).
-/

namespace MiniBox.Lib

/-- How far up from `x` to `a`. -/
def ahead (n x a : Nat) : Nat := if x ≤ a then a - x else a + n - x

/-- How far up from `a` to `b` when a step is made: all the way around, to `a` itself. -/
def stride (n a b : Nat) : Nat := if a < b then b - a else b + n - a

section Circle

variable {n x a b : Nat}

theorem ahead_self : ahead n x x = 0 := by simp [ahead]

theorem ahead_lt (inside : a < n) (start : x < n) : ahead n x a < n := by
  unfold ahead
  split <;> omega

theorem ahead_pos (start : x < n) (other : a ≠ x) : 0 < ahead n x a := by
  unfold ahead
  split <;> omega

theorem ahead_inj (left : a < n) (right : b < n) (start : x < n)
    (same : ahead n x a = ahead n x b) :
    a = b := by
  unfold ahead at same
  split at same <;> split at same <;> omega

/-- A stride that does not pass `x` takes one as far ahead as it is long. -/
theorem ahead_stride (here : a < n) (there : b < n) (start : x < n) (stops : b ≠ x)
    (short : stride n a b ≤ stride n a x) : ahead n x b = ahead n x a + stride n a b := by
  unfold ahead stride at *
  split at short <;> split at short <;> split <;> split <;> omega

/-- How far it is to something further ahead. -/
theorem stride_of_ahead (here : a < n) (there : b < n) (start : x < n)
    (further : ahead n x a < ahead n x b) : stride n a b = ahead n x b - ahead n x a := by
  unfold ahead stride at *
  split at further <;> split at further <;> split <;> omega

/-- And all the way back to `x`. -/
theorem stride_back (here : a < n) (start : x < n) : stride n a x = n - ahead n x a := by
  unfold ahead stride
  split <;> split <;> omega

end Circle

/-- Nothing ready is nearer. -/
def Nearest (n : Nat) (ready : Nat → Prop) (a b : Nat) : Prop :=
  ∀ y < n, ready y → stride n a b ≤ stride n a y

/-- From a turn of `x`, at `i`, to its next, at `j`. -/
structure Round (n : Nat) (turn : Nat → Nat) (ready : Nat → Nat → Prop) (x i j : Nat) : Prop where
  inside : ∀ k, i ≤ k → k ≤ j → turn k < n
  nearest : ∀ k, i ≤ k → k < j → Nearest n (ready k) (turn k) (turn (k + 1))
  /-- it could have a turn all the while -/
  steady : ∀ k, i ≤ k → k < j → ready k x
  less : i < j
  first : turn i = x
  last : turn j = x
  between : ∀ k, i < k → k < j → turn k ≠ x

namespace Round

variable {n x i j : Nat} {turn : Nat → Nat} {ready : Nat → Nat → Prop}

variable (round : Round n turn ready x i j)
include round

theorem start : x < n :=
  round.first ▸ round.inside i (Nat.le_refl i) (Nat.le_of_lt round.less)

/-- One turn goes further ahead, by its stride. -/
theorem step {k : Nat} (from_ : i ≤ k) (until_ : k + 1 < j) :
    ahead n x (turn (k + 1)) = ahead n x (turn k) + stride n (turn k) (turn (k + 1)) := by
  have start := round.start
  have here := round.inside k from_ (by omega)
  have there := round.inside (k + 1) (by omega) (by omega)
  exact ahead_stride here there start (round.between (k + 1) (by omega) until_)
    (round.nearest k from_ (by omega) x start (round.steady k from_ (by omega)))

theorem ascends {k l : Nat} (from_ : i ≤ k) (less : k < l) (until_ : l < j) :
    ahead n x (turn k) < ahead n x (turn l) := by
  induction l with
  | zero => omega
  | succ l induction =>
    have step := round.step (k := l) (by omega) until_
    have positive : 0 < stride n (turn l) (turn (l + 1)) := by
      have := round.inside l (by omega) (by omega)
      unfold stride
      split <;> omega
    by_cases last : k = l
    · subst last
      omega
    · have := induction (by omega) (by omega)
      omega

/-- Until a number that is ready has had its turn, the turns are behind it. -/
theorem behind {y : Nat} (inside : y < n) (other : y ≠ x) (waits : ∀ k, i ≤ k → k < j → ready k y) :
    ∀ {k : Nat}, i ≤ k → k < j →
    ahead n x (turn k) < ahead n x y ∨ ∃ l, i < l ∧ l ≤ k ∧ turn l = y := by
  have least : ahead n x (turn i) < ahead n x y := by
    rw [round.first, ahead_self]
    exact ahead_pos round.start other
  intro k
  induction k with
  | zero =>
    intro from_ _
    obtain rfl : i = 0 := by omega
    exact .inl least
  | succ k induction =>
    intro from_ until_
    by_cases first : i = k + 1
    · exact .inl (first ▸ least)
    · have from_ : i ≤ k := by omega
      rcases induction from_ (by omega) with before | ⟨l, after, at_most, here⟩
      · have at_ := round.inside k from_ (by omega)
        have near := round.nearest k from_ (by omega) y inside (waits k from_ (by omega))
        have step := round.step from_ until_
        rw [stride_of_ahead at_ inside round.start before] at near
        by_cases reached : ahead n x (turn (k + 1)) = ahead n x y
        · have next := round.inside (k + 1) (by omega) (by omega)
          exact .inr ⟨k + 1, by omega, Nat.le_refl _, ahead_inj next inside round.start reached⟩
        · exact .inl (by omega)
      · exact .inr ⟨l, after, by omega, here⟩

theorem visits {y : Nat} (inside : y < n) (other : y ≠ x) (waits : ∀ k, i ≤ k → k < j → ready k y) :
    ∃! k, (i < k ∧ k < j) ∧ turn k = y := by
  have start := round.start
  have less := round.less
  have exists_ : ∃ k, (i < k ∧ k < j) ∧ turn k = y := by
    rcases round.behind inside other waits (k := j - 1) (by omega) (by omega) with
      before | ⟨l, after, at_most, here⟩
    · -- the last turn would have passed it over
      have at_ := round.inside (j - 1) (by omega) (by omega)
      have near := round.nearest (j - 1) (by omega) (by omega) y inside
        (waits (j - 1) (by omega) (by omega))
      rw [show j - 1 + 1 = j by omega, round.last, stride_back at_ start,
        stride_of_ahead at_ inside start before] at near
      have := ahead_lt inside start
      omega
    · exact ⟨l, ⟨after, by omega⟩, here⟩
  obtain ⟨k, ⟨after, before⟩, here⟩ := exists_
  refine ⟨k, ⟨⟨after, before⟩, here⟩, ?_⟩
  rintro l ⟨⟨after', before'⟩, here'⟩
  rcases Nat.lt_trichotomy k l with earlier | same | later
  · have := round.ascends (Nat.le_of_lt after) earlier before'
    rw [here, here'] at this
    omega
  · exact same.symm
  · have := round.ascends (Nat.le_of_lt after') later before
    rw [here, here'] at this
    omega

end Round

end MiniBox.Lib

