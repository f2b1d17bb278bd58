import Mathlib.Data.List.Range
import Mathlib.Logic.Function.Basic

/-!
# Loops over consecutive indices

A C loop `for (i = start; i < start + count; i++) a = f(a, i)` is a left fold
over `List.range' start count`.  The first section gives its equations and its
invariant rule.

The second section is about loops that touch one cell at a time.  `get a i` is
the cell of `a` at `i`.  A body is *local* when it leaves every cell but its
own alone.  Such a loop acts on each cell of its range once and on no other
cell, whatever the bodies before it did to the rest of the state.  The context
`C` is what the bodies read besides their cell, and must survive each of them.

A loop that can stop early is `untilStop`: its body answers the next state and,
when it stops, the reason.

The next section counts the indices below a bound at which a Boolean holds,
and says how the count moves when one index changes.  The last one is the scan
`while (i < limit && p(i)) i++`.
-/

namespace MiniBox.Lib

variable {α β : Type*}

/-! ## The loop and its invariant rule -/

variable {P : α → Prop} {start count j : Nat} {f : α → Nat → α} {a : α} {get : α → Nat → β}

/-- `f` at `start`, `start + 1`, up to `start + count - 1`, in that order. -/
def forRange (start count : Nat) (f : α → Nat → α) (a : α) : α :=
  (List.range' start count).foldl f a

theorem forRange_succ (start count : Nat) (f : α → Nat → α) (a : α) :
    forRange start (count + 1) f a = f (forRange start count f a) (start + count) := by
  simp [forRange, List.range'_concat]

/-- What every body of the range preserves, the loop preserves. -/
theorem forRange_inv (initial : P a) (step : ∀ a i, start ≤ i → i < start + count → P a → P
    (f a i)) :
    P (forRange start count f a) := by
  induction count with
  | zero => exact initial
  | succ count ih =>
    rw [forRange_succ]
    refine step _ _ (by omega) (by omega) (ih ?_)
    intro a i hlo hhi h
    exact step a i hlo (by omega) h

/-- What the body at one index establishes and no body undoes holds after the loop. -/
theorem forRange_establishes {Q : α → Prop} (initial : P a) (wait : ∀ a i, i ≠ j → P a → P (f a i))
    (here : ∀ a, P a → Q (f a j)) (stay : ∀ a i, Q a → Q (f a i)) (lo : start ≤ j)
    (hi : j < start + count) :
    Q (forRange start count f a) := by
  induction count with
  | zero => omega
  | succ count ih =>
    rw [forRange_succ]
    by_cases last : j = start + count
    · rw [← last]
      refine here _ (forRange_inv initial fun a i _ below => wait a i ?_)
      omega
    · exact stay _ _ (ih (by omega))

/-! ## Loops that touch one cell at a time -/

/-- A body that leaves every cell but its own alone. -/
def Local (get : α → Nat → β) (f : α → Nat → α) : Prop :=
  ∀ a i j, j ≠ i → get (f a i) j = get a j

theorem forRange_outside (hf : Local get f) (hj : ¬ (start ≤ j ∧ j < start + count)) :
    get (forRange start count f a) j = get a j := by
  induction count with
  | zero => rfl
  | succ count ih =>
    rw [forRange_succ, hf _ _ _ (by omega)]
    exact ih (by omega)

/-- Inside the range the loop relates a cell to itself as one body does. -/
theorem forRange_inside (hf : Local get f) {C : α → Prop} (hC : ∀ a i, C a → C (f a i))
    {R : Nat → β → β → Prop} (hR : ∀ a i, C a → i < start + count → R i (get a i) (get (f a i) i))
    (ha : C a) (hlo : start ≤ j) (hhi : j < start + count) :
    R j (get a j) (get (forRange start count f a) j) := by
  induction count with
  | zero => omega
  | succ count ih =>
    rw [forRange_succ]
    by_cases hj : j = start + count
    · subst hj
      have before : get (forRange start count f a) (start + count) = get a (start + count) :=
        forRange_outside hf (by omega)
      rw [← before]
      refine hR _ _ ?_ (by omega)
      exact forRange_inv ha fun a i _ _ h => hC a i h
    · rw [hf _ _ _ hj]
      exact ih (fun a i h hi => hR a i h (by omega)) (by omega)

/-- A local loop whose body is a function of the cell is that function, cell by
cell. -/
theorem forRange_cell {get : α → Nat → β} {f : α → Nat → α} (hf : Local get f)
    {C : α → Prop} (hC : ∀ a i, C a → C (f a i)) {g : Nat → β → β}
    (hg : ∀ a i, C a → get (f a i) i = g i (get a i)) {start count : Nat} {a : α} (ha : C a)
    (j : Nat) :
    get (forRange start count f a) j =
      if start ≤ j ∧ j < start + count then g j (get a j) else get a j := by
  by_cases hj : start ≤ j ∧ j < start + count
  · rw [if_pos hj]
    exact forRange_inside hf hC (R := fun i x y => y = g i x) (fun a i h _ => hg a i h) ha hj.1 hj.2
  · rw [if_neg hj]
    exact forRange_outside hf hj

/-! ## Loops over ascending entries

A loop over a list of entries, each with an index of its own, the indices
ascending.  The context may depend on how far the loop has come. -/

section Entries

variable {γ : Type*} (get : α → Nat → β) {f : α → γ → α} {idx : γ → Nat} {C : Nat → α → Prop}

/-- A cell no entry names keeps its value. -/
theorem foldl_outside (apart : ∀ a e j, C (idx e) a → j ≠ idx e → get (f a e) j = get a j)
    (advance : ∀ a e, C (idx e) a → C (idx e + 1) (f a e))
    (later : ∀ a k l, k ≤ l → C k a → C l a) {j : Nat} :
    ∀ {entries : List γ} {a : α} {k : Nat}, entries.Pairwise (idx · < idx ·) →
      (∀ e ∈ entries, k ≤ idx e) → C k a → (∀ e ∈ entries, idx e ≠ j) →
      get (entries.foldl f a) j = get a j
  | [], _, _, _, _, _, _ => rfl
  | e :: rest, a, k, ascending, bounds, here, other => by
    obtain ⟨above, tail⟩ := List.pairwise_cons.mp ascending
    have now := later a k _ (bounds e (by simp)) here
    rw [List.foldl_cons, foldl_outside apart advance later tail above (advance a e now)
      fun d hd => other d (by simp [hd])]
    exact apart a e j now (Ne.symm (other e (by simp)))

/-- The cell an entry names changes as its body changes it. -/
theorem foldl_inside (apart : ∀ a e j, C (idx e) a → j ≠ idx e → get (f a e) j = get a j)
    (advance : ∀ a e, C (idx e) a → C (idx e + 1) (f a e))
    (later : ∀ a k l, k ≤ l → C k a → C l a) {R : γ → β → β → Prop}
    (step : ∀ a e, C (idx e) a → R e (get a (idx e)) (get (f a e) (idx e))) {d : γ} :
    ∀ {entries : List γ} {a : α} {k : Nat}, entries.Pairwise (idx · < idx ·) →
      (∀ e ∈ entries, k ≤ idx e) → C k a → d ∈ entries →
      R d (get a (idx d)) (get (entries.foldl f a) (idx d))
  | [], _, _, _, _, _, member => by simp at member
  | e :: rest, a, k, ascending, bounds, here, member => by
    obtain ⟨above, tail⟩ := List.pairwise_cons.mp ascending
    have now := later a k _ (bounds e (by simp)) here
    rw [List.foldl_cons]
    rcases List.mem_cons.mp member with rfl | member
    · have kept : get (rest.foldl f (f a d)) (idx d) = get (f a d) (idx d) :=
        foldl_outside get apart advance later tail above (advance a d now)
          fun e he => Nat.ne_of_gt (above e he)
      rw [kept]
      exact step a d now
    · rw [← apart a e (idx d) now (Nat.ne_of_gt (above d member))]
      exact foldl_inside apart advance later step tail above (advance a e now) member

end Entries

/-! ## Loops that can stop -/

variable {ε : Type*} {n i : Nat} {f g p : Nat → Bool}

/-- `f` at `i`, `i + 1`, ... for `count` times, or until it answers a reason to
stop. -/
def untilStop (f : α → Nat → α × Option ε) : (count i : Nat) → α → α × Option ε
  | 0, _, a => (a, none)
  | count + 1, i, a =>
    match f a i with
    | (a, some reason) => (a, some reason)
    | (a, none) => untilStop f count (i + 1) a

/-- What every body of the range preserves, whether or not it stops, holds when the
loop ends. -/
theorem untilStop_inv {P : α → Prop} {f : α → Nat → α × Option ε} : ∀ {count i : Nat} {a : α}, P a →
      (∀ a j, i ≤ j → j < i + count → P a → P (f a j).1) → P (untilStop f count i a).1
  | 0, _, _, initial, _ => initial
  | count + 1, i, a, initial, step => by
    have next := step a i (Nat.le_refl i) (by omega) initial
    have later : ∀ a j, i + 1 ≤ j → j < i + 1 + count → P a → P (f a j).1 :=
      fun a j lo hi => step a j (by omega) (by omega)
    unfold untilStop
    split
    next b reason h =>
      rw [h] at next
      exact next
    next b h =>
      rw [h] at next
      exact untilStop_inv next later

/-- A loop none of whose bodies stops runs to its end. -/
theorem untilStop_ok {P : Nat → α → Prop} {f : α → Nat → α × Option ε} :
    ∀ {count i : Nat} {a : α}, P i a →
      (∀ a j, i ≤ j → j < i + count → P j a → ∃ b, f a j = (b, none) ∧ P (j + 1) b) →
      ∃ b, untilStop f count i a = (b, none) ∧ P (i + count) b
  | 0, _, a, initial, _ => ⟨a, rfl, initial⟩
  | count + 1, i, a, initial, step => by
    obtain ⟨b, is, next⟩ := step a i (Nat.le_refl i) (by omega) initial
    obtain ⟨c, ends, last⟩ := untilStop_ok next
      fun a j lo (hi : j < i + 1 + count) => step a j (by omega) (by omega)
    refine ⟨c, ?_, ?_⟩
    · rw [untilStop, is]
      exact ends
    · rw [show i + (count + 1) = i + 1 + count by omega]
      exact last

/-! ## Counting -/

/-- How many indices below `n` satisfy `f`. -/
def countBelow (n : Nat) (f : Nat → Bool) : Nat := (List.range n).countP f

theorem countBelow_succ (n : Nat) (f : Nat → Bool) :
    countBelow (n + 1) f = countBelow n f + (f n).toNat := by
  simp only [countBelow, List.range_succ, List.countP_append, List.countP_singleton]
  cases f n <;> rfl

theorem countBelow_congr (h : ∀ i, i < n → f i = g i) : countBelow n f = countBelow n g := by
  induction n with
  | zero => rfl
  | succ n ih =>
    rw [countBelow_succ, countBelow_succ, ih fun i hi => h i (by omega), h n (by omega)]

/-- Changing one index below the bound moves the count by that index alone. -/
theorem countBelow_update (hi : i < n) (h : ∀ j, j ≠ i → g j = f j) :
    countBelow n g + (f i).toNat = countBelow n f + (g i).toNat := by
  induction n with
  | zero => omega
  | succ n ih =>
    rw [countBelow_succ, countBelow_succ]
    by_cases hn : i = n
    · subst hn
      have same : countBelow i g = countBelow i f :=
        countBelow_congr fun j hj => h j (by omega)
      omega
    · have before := ih (by omega)
      rw [h n (by omega)]
      omega

/-- A count that leaves out an index the other has is smaller. -/
theorem countBelow_lt (sub : ∀ j, f j = true → g j = true) (hi : i < n) (within : g i = true)
    (apart : f i = false) : countBelow n f < countBelow n g := by
  have one : countBelow n (Function.update f i true) = countBelow n f + 1 := by
    have moved := countBelow_update (g := Function.update f i true) hi
      fun j hj => Function.update_of_ne hj _ _
    simpa [apart] using moved
  have fewer : countBelow n (Function.update f i true) ≤ countBelow n g := by
    refine List.countP_mono_left fun j _ => ?_
    by_cases here : j = i
    · subst here
      exact fun _ => within
    · rw [Function.update_of_ne here]
      exact sub j
  omega

theorem countBelow_eq_zero : countBelow n f = 0 ↔ ∀ i, i < n → f i = false := by
  simp [countBelow, List.countP_eq_zero]

theorem countBelow_pos (hi : i < n) (hf : f i = true) : 0 < countBelow n f := by
  rcases Nat.eq_zero_or_pos (countBelow n f) with h | h
  · rw [countBelow_eq_zero.mp h i hi] at hf
    exact absurd hf (by decide)
  · exact h

/-! ## Scanning -/

/-- The first index from `i` on where `p` fails, looking at `fuel` of them. -/
def firstFrom (p : Nat → Bool) : Nat → Nat → Nat
  | 0, i => i
  | fuel + 1, i => if p i then firstFrom p fuel (i + 1) else i

theorem le_firstFrom (p : Nat → Bool) : ∀ (fuel i : Nat), i ≤ firstFrom p fuel i
  | 0, _ => Nat.le_refl _
  | fuel + 1, i => by
    unfold firstFrom
    split
    · exact Nat.le_of_succ_le (le_firstFrom p fuel (i + 1))
    · exact Nat.le_refl _

theorem firstFrom_le (p : Nat → Bool) : ∀ (fuel i : Nat), firstFrom p fuel i ≤ i + fuel
  | 0, _ => Nat.le_refl _
  | fuel + 1, i => by
    unfold firstFrom
    split
    · have := firstFrom_le p fuel (i + 1)
      omega
    · omega

theorem firstFrom_all (h : ∀ i, p i = true) : ∀ (fuel i : Nat), firstFrom p fuel i = i + fuel
  | 0, _ => rfl
  | fuel + 1, i => by
    rw [firstFrom, if_pos (h i), firstFrom_all h fuel (i + 1)]
    omega

/-- Everything the scan passed satisfies `p`. -/
theorem firstFrom_passed {p : Nat → Bool} : ∀ {fuel i j : Nat}, i ≤ j →
    j < firstFrom p fuel i → p j = true
  | 0, i, j, hlo, hhi => by
    have : firstFrom p 0 i = i := rfl
    omega
  | fuel + 1, i, j, hlo, hhi => by
    unfold firstFrom at hhi
    split at hhi
    next here =>
      by_cases hj : j = i
      · subst hj
        exact here
      · exact firstFrom_passed (by omega) hhi
    · omega

/-- A scan that ends early ends where `p` fails. -/
theorem firstFrom_stopped : ∀ {fuel i : Nat}, firstFrom p fuel i < i + fuel →
    p (firstFrom p fuel i) = false
  | 0, i, early => absurd early (Nat.lt_irrefl i)
  | fuel + 1, i, early => by
    unfold firstFrom at early ⊢
    split at early
    next here =>
      rw [if_pos here]
      exact firstFrom_stopped (by omega)
    next here =>
      rw [if_neg here]
      exact Bool.eq_false_iff.mpr here

end MiniBox.Lib
