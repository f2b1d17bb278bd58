import Mathlib.Data.List.Basic
import Mathlib.Data.List.Pairwise
import Mathlib.Data.List.Sort
import Mathlib.Tactic.Tauto

/-!
# Merging two keyed lists, the later one winning

`mergeLater key xs ys` walks two lists together, always taking the entry with the
smaller key; where both have a key, the entry of `ys` is taken and the one of
`xs` dropped.  On lists that ascend strictly by key the merge ascends strictly
too, and looking a key up in it is looking it up in `ys` first and then in `xs`.
An ascending list is told by its lookups (`ascending_ext`), so merging is associative.

`override` reads a keyed list as a change to a function, and the merge of two lists is the
one change after the other (`override_mergeLater`).
-/

namespace MiniBox.Lib

variable {α : Type*} {key : α → Nat} {xs ys : List α} {k : Nat} {x : α} {β : Type*} {value : α → β}

def mergeLater (key : α → Nat) : List α → List α → List α
  | [], ys => ys
  | x :: xs, [] => x :: xs
  | x :: xs, y :: ys =>
    if key y = key x then y :: mergeLater key xs ys
    else if key y < key x then y :: mergeLater key (x :: xs) ys
    else x :: mergeLater key xs (y :: ys)
termination_by xs ys => xs.length + ys.length

theorem mergeLater_nil (xs : List α) : mergeLater key xs [] = xs := by
  cases xs <;> rw [mergeLater]

/-- Strictly ascending by key. -/
def Ascending (key : α → Nat) (xs : List α) : Prop := xs.Pairwise fun x y => key x < key y

/-- An ascending list of keys in `[k, n)` has at most `n - k` entries. -/
theorem ascending_length {n : Nat} : ∀ {xs : List α} {k : Nat},
    Ascending key xs → (∀ x ∈ xs, k ≤ key x ∧ key x < n) → xs.length ≤ n - k
  | [], _, _, _ => Nat.zero_le _
  | x :: xs, k, ascends, inside => by
    obtain ⟨above, rest⟩ := List.pairwise_cons.mp ascends
    have here := inside x (by simp)
    have fewer : xs.length ≤ n - (key x + 1) :=
      ascending_length rest fun y hy => ⟨above y hy, (inside y (by simp [hy])).2⟩
    rw [List.length_cons]
    omega

theorem mem_mergeLater {z : α} (h : z ∈ mergeLater key xs ys) : z ∈ xs ∨ z ∈ ys := by
  induction xs, ys using mergeLater.induct key with
  | case1 ys =>
    rw [mergeLater] at h
    exact .inr h
  | case2 x xs =>
    rw [mergeLater] at h
    exact .inl h
  | case3 x xs y ys same ih =>
    rw [mergeLater, if_pos same, List.mem_cons] at h
    rcases h with rfl | h
    · exact .inr (by simp)
    · exact (ih h).imp (List.mem_cons_of_mem _) (List.mem_cons_of_mem _)
  | case4 x xs y ys other less ih =>
    rw [mergeLater, if_neg other, if_pos less, List.mem_cons] at h
    rcases h with rfl | h
    · exact .inr (by simp)
    · exact (ih h).imp id (List.mem_cons_of_mem _)
  | case5 x xs y ys other notLess ih =>
    rw [mergeLater, if_neg other, if_neg notLess, List.mem_cons] at h
    rcases h with rfl | h
    · exact .inl (by simp)
    · exact (ih h).imp (List.mem_cons_of_mem _) id

/-- The merge keeps what all entries of both lists satisfy. -/
theorem forall_mergeLater {P : α → Prop} (hx : ∀ x ∈ xs, P x) (hy : ∀ y ∈ ys, P y) :
    ∀ z ∈ mergeLater key xs ys, P z := fun z member =>
  (mem_mergeLater member).elim (hx z) (hy z)

theorem mergeLater_ascending (hx : Ascending key xs) (hy : Ascending key ys) :
    Ascending key (mergeLater key xs ys) := by
  induction xs, ys using mergeLater.induct key with
  | case1 ys =>
    rw [mergeLater]
    exact hy
  | case2 x xs =>
    rw [mergeLater]
    exact hx
  | case3 x xs y ys same ih =>
    obtain ⟨hxs, hx'⟩ := List.pairwise_cons.mp hx
    obtain ⟨hys, hy'⟩ := List.pairwise_cons.mp hy
    rw [mergeLater, if_pos same]
    refine List.pairwise_cons.mpr ⟨fun z hz => ?_, ih hx' hy'⟩
    rcases mem_mergeLater hz with hz | hz
    · rw [same]
      exact hxs z hz
    · exact hys z hz
  | case4 x xs y ys other less ih =>
    obtain ⟨hxs, -⟩ := List.pairwise_cons.mp hx
    obtain ⟨hys, hy'⟩ := List.pairwise_cons.mp hy
    rw [mergeLater, if_neg other, if_pos less]
    refine List.pairwise_cons.mpr ⟨fun z hz => ?_, ih hx hy'⟩
    rcases mem_mergeLater hz with hz | hz
    · rcases List.mem_cons.mp hz with rfl | hz
      · exact less
      · exact Nat.lt_trans less (hxs z hz)
    · exact hys z hz
  | case5 x xs y ys other notLess ih =>
    obtain ⟨hxs, hx'⟩ := List.pairwise_cons.mp hx
    obtain ⟨hys, -⟩ := List.pairwise_cons.mp hy
    rw [mergeLater, if_neg other, if_neg notLess]
    refine List.pairwise_cons.mpr ⟨fun z hz => ?_, ih hx' hy⟩
    rcases mem_mergeLater hz with hz | hz
    · exact hxs z hz
    · rcases List.mem_cons.mp hz with rfl | hz
      · omega
      · have := hys z hz
        omega

/-- The merge looks at the keys of its entries only. -/
theorem mergeLater_congr {key' : α → Nat} (hx : ∀ x ∈ xs, key x = key' x)
    (hy : ∀ y ∈ ys, key y = key' y) : mergeLater key xs ys = mergeLater key' xs ys := by
  induction xs, ys using mergeLater.induct key with
  | case1 ys => rw [mergeLater, mergeLater]
  | case2 x xs => rw [mergeLater, mergeLater]
  | case3 x xs y ys same ih =>
    have tail := ih (fun z hz => hx z (by simp [hz])) fun z hz => hy z (by simp [hz])
    rw [mergeLater, mergeLater, if_pos same, if_pos ?_, tail]
    rw [← hx x (by simp), ← hy y (by simp), same]
  | case4 x xs y ys other less ih =>
    have tail := ih hx fun z hz => hy z (by simp [hz])
    rw [hx x (by simp), hy y (by simp)] at other less
    rw [mergeLater, mergeLater, if_neg other, if_pos less, hx x (by simp), hy y (by simp),
      if_neg other, if_pos less, tail]
  | case5 x xs y ys other notLess ih =>
    have tail := ih (fun z hz => hx z (by simp [hz])) hy
    rw [hx x (by simp), hy y (by simp)] at other notLess
    rw [mergeLater, mergeLater, if_neg other, if_neg notLess, hx x (by simp), hy y (by simp),
      if_neg other, if_neg notLess, tail]

/-- The entry with key `k`. -/
def lookup (key : α → Nat) (k : Nat) (xs : List α) : Option α := xs.find? fun x => key x == k

theorem lookup_of_lt (h : ∀ x ∈ xs, k < key x) : lookup key k xs = none := by
  rw [lookup, List.find?_eq_none]
  intro x hx
  have := h x hx
  simp only [beq_iff_eq]
  omega

/-- A key is looked up in the merge as in the later list, then the earlier. -/
theorem lookup_mergeLater (hx : Ascending key xs) (hy : Ascending key ys) (k : Nat) :
    lookup key k (mergeLater key xs ys) = (lookup key k ys).or (lookup key k xs) := by
  induction xs, ys using mergeLater.induct key with
  | case1 ys => simp [mergeLater, lookup]
  | case2 x xs => simp [mergeLater, lookup]
  | case3 x xs y ys same ih =>
    obtain ⟨-, hx'⟩ := List.pairwise_cons.mp hx
    obtain ⟨-, hy'⟩ := List.pairwise_cons.mp hy
    rw [mergeLater, if_pos same]
    by_cases here : key y = k
    · simp [lookup, here]
    · have dropped : key x ≠ k := by omega
      simpa [lookup, here, dropped] using ih hx' hy'
  | case4 x xs y ys other less ih =>
    obtain ⟨-, hy'⟩ := List.pairwise_cons.mp hy
    rw [mergeLater, if_neg other, if_pos less]
    by_cases here : key y = k
    · simp [lookup, here]
    · simpa [lookup, here] using ih hx hy'
  | case5 x xs y ys other notLess ih =>
    obtain ⟨-, hx'⟩ := List.pairwise_cons.mp hx
    obtain ⟨hys, -⟩ := List.pairwise_cons.mp hy
    rw [mergeLater, if_neg other, if_neg notLess]
    by_cases here : key x = k
    · have later : lookup key k (y :: ys) = none := by
        refine lookup_of_lt fun z hz => ?_
        rcases List.mem_cons.mp hz with rfl | hz
        · omega
        · have := hys z hz
          omega
      rw [later]
      simp [lookup, here]
    · have skip : ∀ zs, lookup key k (x :: zs) = lookup key k zs := fun zs => by
        simp [lookup, here]
      rw [skip, skip, ih hx' hy]

/-- Where an ascending list has a key, looking it up finds that entry. -/
theorem lookup_of_mem (ascends : Ascending key xs) (member : x ∈ xs) :
    lookup key (key x) xs = some x := by
  induction xs with
  | nil => cases member
  | cons y xs ih =>
    obtain ⟨above, rest⟩ := List.pairwise_cons.mp ascends
    rcases List.mem_cons.mp member with rfl | later
    · simp [lookup]
    · have other : key y ≠ key x := Nat.ne_of_lt (above x later)
      simpa [lookup, other] using ih rest later

theorem lookup_eq_none : lookup key k xs = none ↔ ∀ x ∈ xs, key x ≠ k := by
  simp [lookup]

theorem mem_of_lookup (h : lookup key k xs = some x) : x ∈ xs ∧ key x = k := by
  have found := List.find?_some h
  exact ⟨List.mem_of_find?_eq_some h, eq_of_beq found⟩

theorem mem_iff_lookup (ascends : Ascending key xs) : x ∈ xs ↔ lookup key (key x) xs = some x := by
  constructor
  · exact lookup_of_mem ascends
  · exact List.mem_of_find?_eq_some

/-- Two ascending lists with the same lookups are the same list. -/
theorem ascending_ext (hx : Ascending key xs) (hy : Ascending key ys)
    (same : ∀ k, lookup key k xs = lookup key k ys) : xs = ys := by
  have irrefl : Std.Irrefl fun x y : α => key x < key y := ⟨fun x => Nat.lt_irrefl (key x)⟩
  have antisymm : Std.Antisymm fun x y : α => key x < key y :=
    ⟨fun x y less more => absurd less (Nat.lt_asymm more)⟩
  refine List.Pairwise.eq_of_mem_iff hx hy fun x => ?_
  rw [mem_iff_lookup hx, mem_iff_lookup hy, same]

theorem mergeLater_assoc {zs : List α} (hx : Ascending key xs) (hy : Ascending key ys)
    (hz : Ascending key zs) :
    mergeLater key (mergeLater key xs ys) zs = mergeLater key xs (mergeLater key ys zs) := by
  have left := mergeLater_ascending hx hy
  have right := mergeLater_ascending hy hz
  refine ascending_ext (mergeLater_ascending left hz) (mergeLater_ascending hx right) fun k => ?_
  rw [lookup_mergeLater left hz, lookup_mergeLater hx hy, lookup_mergeLater hx right,
    lookup_mergeLater hy hz, Option.or_assoc]

/-! ## Loops that merge -/

/-- One turn of a loop that merges as `mergeLater` does: what it puts, and where it goes on. -/
def mergeTurn (key : α → Nat) (put : α → β → β) (done : β) (next : Nat → Nat → β) (i j : Nat) :
    List α → List α → β
  | [], [] => done
  | [], y :: _ => put y (next i (j + 1))
  | x :: _, [] => put x (next (i + 1) j)
  | x :: _, y :: _ =>
    if key x < key y then put x (next (i + 1) j)
    else if key y < key x then put y (next i (j + 1))
    else put y (next (i + 1) (j + 1))

/-- A loop of such turns through two lists puts the entries of their merge. -/
theorem mergeLater_loop {At Bt : Nat → List α → Prop} {put : α → β → β} {done : β}
    {loop : Nat → Nat → Nat → β} (zero : ∀ {i j}, At i [] → Bt j [] → loop 0 i j = done)
    (turn : ∀ {fuel i j xs ys}, At i xs → Bt j ys →
      loop (fuel + 1) i j = mergeTurn key put done (loop fuel) i j xs ys)
    (nextA : ∀ {i x xs}, At i (x :: xs) → At (i + 1) xs)
    (nextB : ∀ {j y ys}, Bt j (y :: ys) → Bt (j + 1) ys) :
    ∀ {fuel i j : Nat} {xs ys : List α}, At i xs → Bt j ys → xs.length + ys.length ≤ fuel →
      loop fuel i j = (mergeLater key xs ys).foldr put done
  | 0, i, j, [], [], hereA, hereB, _ => by
    rw [zero hereA hereB, mergeLater, List.foldr_nil]
  | 0, i, j, x :: xs, ys, _, _, enough => by simp at enough
  | 0, i, j, [], y :: ys, _, _, enough => by simp at enough
  | fuel + 1, i, j, xs, ys, hereA, hereB, enough => by
    have next {i j xs ys} (hereA : At i xs) (hereB : Bt j ys)
        (enough : xs.length + ys.length ≤ fuel) :=
      mergeLater_loop zero turn nextA nextB hereA hereB enough
    rw [turn hereA hereB]
    induction xs, ys using mergeLater.induct key with
    | case1 ys =>
      cases ys with
      | nil => rw [mergeTurn, mergeLater, List.foldr_nil]
      | cons y ys =>
        rw [mergeTurn, next hereA (nextB hereB) (by simpa using enough)]
        simp only [mergeLater, List.foldr_cons]
    | case2 x xs =>
      rw [mergeTurn, next (nextA hereA) hereB (by simpa using enough)]
      simp only [mergeLater_nil, List.foldr_cons]
    | case3 x xs y ys same ih =>
      rw [mergeTurn, if_neg (by omega), if_neg (by omega), mergeLater, if_pos same, List.foldr_cons,
        next (nextA hereA) (nextB hereB) (by simp at enough; omega)]
    | case4 x xs y ys other less ih =>
      rw [mergeTurn, if_neg (by omega), if_pos less, mergeLater, if_neg other, if_pos less,
        List.foldr_cons, next hereA (nextB hereB) (by simp at enough ⊢; omega)]
    | case5 x xs y ys other notLess ih =>
      rw [mergeTurn, if_pos (by omega), mergeLater, if_neg other, if_neg notLess, List.foldr_cons,
        next (nextA hereA) hereB (by simp at enough ⊢; omega)]

theorem foldr_count (xs : List α) (n : Nat) :
    xs.foldr (fun _ count n => count (n + 1)) id n = n + xs.length := by
  induction xs generalizing n with
  | nil => rfl
  | cons x xs ih =>
    rw [List.foldr_cons, ih, List.length_cons]
    omega

/-! ## Keyed lists as changes to a function -/

/-- `f` with the values of the list where it has a key. -/
def override {β : Type*} (key : α → Nat) (value : α → β) (xs : List α) (f : Nat → β) (k : Nat) :
    β :=
  ((lookup key k xs).map value).getD (f k)

theorem override_of_mem (ascends : Ascending key xs) (member : x ∈ xs) (f : Nat → β) :
    override key value xs f (key x) = value x := by
  rw [override, lookup_of_mem ascends member]
  rfl

theorem override_of_not_mem (apart : ∀ x ∈ xs, key x ≠ k) (f : Nat → β) :
    override key value xs f k = f k := by
  rw [override, lookup_eq_none.mpr apart]
  rfl

theorem override_mergeLater (hx : Ascending key xs) (hy : Ascending key ys) (f : Nat → β)
    (k : Nat) :
    override key value (mergeLater key xs ys) f k =
      override key value ys (override key value xs f) k := by
  unfold override
  rw [lookup_mergeLater hx hy]
  cases lookup key k ys <;> simp

end MiniBox.Lib
