import Mathlib.Data.List.Nodup
import Mathlib.Data.List.Perm.Subperm
import Mathlib.Data.List.TakeWhile
import Mathlib.Tactic.Tauto

/-!
# Tables

A table is a list of entries with a key each, kept in parallel columns or in order of its
keys.  The first section says how a change at an index looks from a column.  The others
are about keys that do not repeat: the entry found by its key is the only one a change by
index can touch, and an entry put at its place keeps the order.
-/

namespace MiniBox.Lib

/-! ## Columns -/

section Columns

variable {α β : Type} {column : α → β} {f : α → α}

theorem modify_length_append (before : List α) (x : α) (after : List α) (f : α → α) :
    (before ++ x :: after).modify before.length f = before ++ f x :: after := by
  induction before with
  | nil => rfl
  | cons y before ih => rw [List.cons_append, List.length_cons, List.modify_succ_cons, ih]; rfl

theorem modify_congr {g : α → α} {xs : List α} {i : Nat} {x : α} (here : xs[i]? = some x)
    (same : f x = g x) : xs.modify i f = xs.modify i g := by
  refine List.ext_getElem? fun j => ?_
  rw [List.getElem?_modify, List.getElem?_modify]
  split
  next at_ =>
    subst at_
    rw [here]
    exact congrArg some same
  · rfl

theorem modify_self {xs : List α} {i : Nat} {x : α} (here : xs[i]? = some x) (same : f x = x) :
    xs.modify i f = xs := by
  rw [@modify_congr _ f id xs i x here same, List.modify_id]

theorem map_modify (g : β → β) (h : ∀ x, column (f x) = g (column x)) :
    ∀ (i : Nat) (xs : List α), (xs.modify i f).map column = (xs.map column).modify i g
  | _, [] => by simp
  | 0, x :: xs => by simp [h]
  | i + 1, x :: xs => by simp [map_modify g h i xs]

theorem map_modify_at {g : β → β} {xs : List α} {i : Nat} {x : α} (here : xs[i]? = some x)
    (same : column (f x) = g (column x)) : (xs.modify i f).map column =
    (xs.map column).modify i g := by
  refine List.ext_getElem? fun j => ?_
  rw [List.getElem?_map, List.getElem?_modify, List.getElem?_modify, List.getElem?_map]
  split
  next at_ =>
    subst at_
    rw [here]
    exact congrArg some same
  · cases xs[j]? <;> rfl

theorem map_modify_set (v : β) (h : ∀ x, column (f x) = v) :
    ∀ (i : Nat) (xs : List α), (xs.modify i f).map column = (xs.map column).set i v
  | _, [] => by simp
  | 0, x :: xs => by simp [h]
  | i + 1, x :: xs => by simp [map_modify_set v h i xs]

theorem map_modify_self (h : ∀ x, column (f x) = column x) :
    ∀ (i : Nat) (xs : List α), (xs.modify i f).map column = xs.map column
  | _, [] => by simp
  | 0, x :: xs => by simp [h]
  | i + 1, x :: xs => by simp [map_modify_self h i xs]

end Columns

/-! ## Keys -/

section Keys

variable {α κ : Type} [DecidableEq κ] {key : α → κ}

/-- A change of the first entry that satisfies `p`, seen by a search for it. -/
theorem find?_modify_findIdx {α : Type*} {p : α → Bool} {f : α → α} (keeps : ∀ x, p (f x) = p x)
    (xs : List α) : (xs.modify (xs.findIdx p) f).find? p = (xs.find? p).map f := by
  induction xs with
  | nil => simp
  | cons x xs ih =>
    cases here : p x with
    | true => simp [List.findIdx_cons, here, keeps]
    | false => simpa [List.findIdx_cons, here] using ih

/-- A change at any index: a search that the change does not mislead finds the same entry,
changed or not. -/
theorem find?_modify {α : Type*} {p : α → Bool} {f : α → α} (keeps : ∀ x, p (f x) = p x) :
    ∀ (i : Nat) (xs : List α),
      (xs.modify i f).find? p = xs.find? p ∨ (xs.modify i f).find? p = (xs.find? p).map f
  | _, [] => by simp
  | 0, x :: xs => by
    cases here : p x with
    | true => exact .inr (by simp [here, keeps])
    | false => exact .inl (by simp [here, keeps])
  | i + 1, x :: xs => by
    cases here : p x with
    | true => exact .inl (by simp [here])
    | false => simpa [here] using find?_modify keeps i xs

/-- The first entry that satisfies one test changed, seen by a search for another. -/
theorem find?_modify_apart {α : Type*} {p q : α → Bool} {f : α → α} (keeps : ∀ x, p (f x) = p x)
    (apart : ∀ x, q x = true → p x = false) (xs : List α) :
    (xs.modify (xs.findIdx q) f).find? p = xs.find? p := by
  induction xs with
  | nil => simp
  | cons x xs ih =>
    cases here : q x with
    | true => simp [List.findIdx_cons, here, keeps, apart x here]
    | false =>
      simp only [List.findIdx_cons, here, cond_false, List.modify_succ_cons, List.find?_cons, ih]

/-- The first entry that satisfies one test erased, seen by a search for another. -/
theorem find?_eraseIdx_findIdx {α : Type*} {p q : α → Bool} (apart : ∀ x, q x = true → p x = false)
    (xs : List α) : (xs.eraseIdx (xs.findIdx q)).find? p = xs.find? p := by
  induction xs with
  | nil => simp
  | cons x xs ih =>
    cases here : q x with
    | true => simp [List.findIdx_cons, here, apart x here]
    | false =>
      simp only [List.findIdx_cons, here, cond_false, List.eraseIdx_cons_succ, List.find?_cons, ih]

/-- A change at the index of a key changes the entry of that key. -/
theorem modify_findIdx (k : κ) (f : α → α) : ∀ {xs : List α}, (xs.map key).Nodup →
    xs.modify (xs.findIdx fun x => key x == k) f = xs.map fun x => if key x = k then f x else x
  | [], _ => by simp
  | x :: xs, distinct => by
    simp only [List.map_cons, List.nodup_cons] at distinct
    by_cases here : key x = k
    · have others : xs.map (fun y => if key y = k then f y else y) = xs := by
        have same : xs.map (fun y => if key y = k then f y else y) = xs.map id :=
          List.map_congr_left fun y member => by
            have inside : key y ∈ xs.map key := List.mem_map_of_mem member
            exact if_neg fun same => distinct.1 (by rw [here, ← same]; exact inside)
        rw [same, List.map_id]
      simp [List.findIdx_cons, here, others]
    · have other : (key x == k) = false := by simpa using here
      simp only [List.findIdx_cons, other, cond_false, List.modify_succ_cons, List.map_cons,
        if_neg here]
      rw [modify_findIdx k f distinct.2]

/-- Erasing at the index of a key takes the entry of that key away. -/
theorem eraseIdx_findIdx (k : κ) : ∀ {xs : List α}, (xs.map key).Nodup →
    xs.eraseIdx (xs.findIdx fun x => key x == k) = xs.filter fun x => key x != k
  | [], _ => by simp
  | x :: xs, distinct => by
    simp only [List.map_cons, List.nodup_cons] at distinct
    by_cases here : key x = k
    · have others : xs.filter (fun y => key y != k) = xs := by
        rw [List.filter_eq_self]
        intro y member
        have differs : key y ≠ k := fun same =>
          distinct.1 (here ▸ same ▸ List.mem_map_of_mem member)
        simpa using differs
      simp [List.findIdx_cons, here, others]
    · have other : (key x == k) = false := by simpa using here
      simp only [List.findIdx_cons, other, cond_false, List.eraseIdx_cons_succ,
        eraseIdx_findIdx k distinct.2]
      rw [List.filter_cons, if_pos (by simpa using here)]

/-- The last entry put in the place of another. -/
theorem set_last_perm {α : Type*} {xs : List α} {last : α} (ends : xs.getLast? = some last)
    {i : Nat}
    (inside : i < xs.length) : ((xs.set i last).dropLast).Perm (xs.eraseIdx i) := by
  obtain ⟨ys, rfl⟩ := List.getLast?_eq_some_iff.mp ends
  rw [List.length_append, List.length_singleton] at inside
  by_cases early : i < ys.length
  · rw [List.set_append_left _ _ early, List.dropLast_concat,
      List.eraseIdx_append_of_lt_length early]
    exact (List.set_perm_cons_eraseIdx early last).trans (List.perm_append_singleton _ _).symm
  · have end_ : i = ys.length := by omega
    subst end_
    simp [List.eraseIdx_append_of_length_le]

end Keys

/-! ## Tables in order -/

section Order

variable {α κ : Type} [LT κ] {key : α → κ} {xs : List α}

/-- The keys ascend. -/
def Sorted (key : α → κ) (xs : List α) : Prop := xs.Pairwise fun x y => key x < key y

theorem Sorted.nodup [Std.Irrefl fun j k : κ => j < k] (sorted : Sorted key xs) :
    (xs.map key).Nodup := by
  rw [List.nodup_iff_pairwise_ne, List.pairwise_map]
  refine sorted.imp fun less same => ?_
  rw [same] at less
  exact Std.lt_irrefl less

/-- Two entries of one key are one entry. -/
theorem Sorted.unique [Std.Irrefl fun j k : κ => j < k] (sorted : Sorted key xs) {x y : α}
    (left : x ∈ xs) (right : y ∈ xs) (same : key x = key y) : x = y :=
  List.inj_on_of_nodup_map sorted.nodup left right same

/-- Two tables in order with the same entries are the same. -/
theorem Sorted.ext [Std.Asymm fun j k : κ => j < k] [Std.Irrefl fun j k : κ => j < k] {ys : List α}
    (left : Sorted key xs) (right : Sorted key ys) (same : ∀ x, x ∈ xs ↔ x ∈ ys) : xs = ys := by
  have nodup : ∀ {zs : List α}, Sorted key zs → zs.Nodup := fun sorted =>
    List.Nodup.of_map _ sorted.nodup
  refine ((List.perm_ext_iff_of_nodup (nodup left) (nodup right)).mpr same).eq_of_pairwise
    (fun x y _ _ first second => ?_) left right
  exact absurd second (Std.Asymm.asymm _ _ first)

variable [DecidableLT κ]

/-- The place of a new key, found from the end: below the keys above it. -/
def place (key : α → κ) (k : κ) (xs : List α) : Nat :=
  (xs.reverse.dropWhile fun x => decide (k < key x)).length

theorem place_map {β : Type} (f : α → β) {key : β → κ} (k : κ) :
    place key k (xs.map f) = place (fun x => key (f x)) k xs := by
  rw [place, ← List.map_reverse, List.dropWhile_map, List.length_map]
  rfl

variable [LE κ] [Std.IsLinearOrder κ] [Std.LawfulOrderLT κ]

/-- The place parts the table: no key before it is above the new one, every key from it on is. -/
theorem exists_place (sorted : Sorted key xs) (k : κ) :
    ∃ low high, xs = low ++ high ∧ place key k xs = low.length ∧ (∀ x ∈ low, key x ≤ k) ∧
      ∀ x ∈ high, k < key x := by
  let above := fun x => decide (k < key x)
  have parted : xs = (xs.reverse.dropWhile above).reverse ++
      (xs.reverse.takeWhile above).reverse := by
    rw [← List.reverse_append, List.takeWhile_append_dropWhile, List.reverse_reverse]
  refine ⟨_, _, parted, by rw [List.length_reverse]; rfl, ?_, ?_⟩
  · intro x member
    rw [List.mem_reverse] at member
    -- the entry next to the place is not above `k`, and those before it are below that one
    cases rest : xs.reverse.dropWhile above with
    | nil => rw [rest] at member; cases member
    | cons y ys =>
      have stops : above y = false := by
        have head := List.head?_dropWhile_not above xs.reverse
        rw [rest] at head
        simpa using head
      have least : key y ≤ k := Std.not_lt.mp (by simpa [above] using stops)
      rw [rest] at member
      rcases List.mem_cons.mp member with rfl | later
      · exact least
      · have order := sorted
        rw [parted, rest, Sorted, List.reverse_cons, List.append_assoc,
          List.pairwise_append] at order
        have less := order.2.2 x (by simpa using later) y (by simp)
        exact Std.le_trans (Std.le_of_lt less) least
  · intro x member
    rw [List.mem_reverse] at member
    simpa [above] using List.mem_takeWhile_imp member

theorem insertIdx_append (x : α) : ∀ (low high : List α),
    (low ++ high).insertIdx low.length x = low ++ x :: high
  | [], high => by simp
  | y :: low, high => by
    rw [List.cons_append, List.length_cons, List.insertIdx_succ_cons, insertIdx_append x low high]
    rfl

/-- A new key put at its place keeps the order. -/
theorem Sorted.insert (sorted : Sorted key xs) {x : α} (fresh : ∀ y ∈ xs, key y ≠ key x) :
    Sorted key (xs.insertIdx (place key (key x) xs) x) := by
  obtain ⟨low, high, rfl, at_, below, above⟩ := exists_place sorted (key x)
  rw [at_, insertIdx_append]
  have order := sorted
  rw [Sorted, List.pairwise_append] at order
  have less : ∀ y ∈ low, key y < key x := fun y member =>
    Std.lt_of_le_of_ne (below y member) (fresh y (by simp [member]))
  refine List.pairwise_append.mpr ⟨order.1, List.pairwise_cons.mpr ⟨above, order.2.1⟩, ?_⟩
  intro y member z later
  rcases List.mem_cons.mp later with rfl | later
  · exact less y member
  · exact order.2.2 y member z later

theorem mem_insert_place (sorted : Sorted key xs) {x y : α} {k : κ} :
    y ∈ xs.insertIdx (place key k xs) x ↔ y = x ∨ y ∈ xs := by
  obtain ⟨low, high, rfl, at_, -, -⟩ := exists_place sorted k
  rw [at_, insertIdx_append]
  simp only [List.mem_append, List.mem_cons]
  tauto

/-- A key above every other goes last. -/
theorem place_last {k : κ} (below : ∀ y ∈ xs, key y < k) : place key k xs = xs.length := by
  have none_ : ∀ y ∈ xs.reverse, decide (k < key y) = false := fun y member =>
    decide_eq_false fun above => Std.lt_irrefl
      (Std.lt_trans above (below y (by simpa using member)))
  have whole : (xs.reverse.dropWhile fun y => decide (k < key y)) = xs.reverse := by
    cases backwards : xs.reverse with
    | nil => rfl
    | cons y ys =>
      rw [List.dropWhile_cons, if_neg]
      rw [none_ y (by simp [backwards])]
      simp
  rw [place, whole, List.length_reverse]

end Order

/-- As many distinct numbers below a bound as the bound says. -/
theorem nodup_length_le {n : Nat} {xs : List Nat} (distinct : xs.Nodup) (below : ∀ x ∈ xs, x < n) :
    xs.length ≤ n := by
  have inside : xs ⊆ List.range n := fun x member => List.mem_range.mpr (below x member)
  have shorter := (List.subperm_of_subset distinct inside).length_le
  rwa [List.length_range] at shorter

/-- What holds of every row still does when one is changed to a row it holds of. -/
theorem forall_mem_modify {α : Type*} {P : α → Prop} {f : α → α} : ∀ {xs : List α} {i : Nat},
    (∀ x ∈ xs, P x) → (∀ x ∈ xs, P (f x)) → ∀ x ∈ xs.modify i f, P x
  | [], i, _, _ => by simp
  | x :: xs, 0, all, changed => by
    intro y member
    rw [List.modify_zero_cons, List.mem_cons] at member
    rcases member with rfl | inside
    · exact changed x (by simp)
    · exact all y (List.mem_cons_of_mem x inside)
  | x :: xs, i + 1, all, changed => by
    intro y member
    rw [List.modify_succ_cons, List.mem_cons] at member
    rcases member with rfl | inside
    · exact all y (by simp)
    · exact forall_mem_modify (fun z among => all z (List.mem_cons_of_mem x among))
        (fun z among => changed z (List.mem_cons_of_mem x among)) y inside

theorem exists_mem_modify {α : Type*} {P : α → Prop} {f : α → α} (keeps : ∀ x, P x → P (f x)) :
    ∀ {xs : List α} {i : Nat}, (∃ x ∈ xs, P x) → ∃ x ∈ xs.modify i f, P x
  | [], i, some_ => by simp at some_
  | x :: xs, 0, ⟨y, member, holds⟩ => by
    rcases List.mem_cons.mp member with rfl | inside
    · exact ⟨f y, by simp, keeps y holds⟩
    · exact ⟨y, by simp [inside], holds⟩
  | x :: xs, i + 1, ⟨y, member, holds⟩ => by
    rcases List.mem_cons.mp member with rfl | inside
    · exact ⟨y, by simp, holds⟩
    · obtain ⟨z, among, holds⟩ := exists_mem_modify keeps (i := i) ⟨y, inside, holds⟩
      exact ⟨z, by simp [among], holds⟩

end MiniBox.Lib
