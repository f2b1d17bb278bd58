import Mathlib.Data.List.Nodup

/-!
# Queues kept by key

A list of queues, each at a key, first come first.  `queued` is who waits at a key,
`extend` puts some behind them and makes the queue when there is none, `put` sets who is
left in a queue, and `without` takes some out of every queue.  A queue nobody is left in
goes away.

`Tidy` says no two queues share a key and none is empty.  Every operation keeps it, and
under it each operation is an equation between the functions `queued`.  `Holds` says who
the queues hold, each in one of them and once, and each operation changes that set.
-/

namespace MiniBox.Lib

/-- A queue: where it is kept, and who is in it, first come first. -/
structure Queue (κ ι : Type) where
  key : κ
  items : List ι
  deriving DecidableEq

abbrev Queues (κ ι : Type) := List (Queue κ ι)

namespace Queues

variable {κ ι : Type} [DecidableEq κ]

/-! ## Operations -/

/-- Who waits at `k`. -/
def queued : Queues κ ι → κ → List ι
  | [], _ => []
  | q :: qs, k => if q.key = k then q.items else queued qs k

/-- `xs` behind the others at `k`; a queue that was not there comes last. -/
def extend (k : κ) (xs : List ι) : Queues κ ι → Queues κ ι
  | [] => [⟨k, xs⟩]
  | q :: qs => if q.key = k then ⟨q.key, q.items ++ xs⟩ :: qs else q :: extend k xs qs

/-- The queue at `k` is left with `items`, or goes away with the last of them. -/
def put (k : κ) (items : List ι) : Queues κ ι → Queues κ ι
  | [] => []
  | q :: qs =>
    if q.key = k then
      if items.isEmpty then qs else ⟨q.key, items⟩ :: qs
    else q :: put k items qs

/-- Those that are `gone` leave every queue. -/
def without (gone : ι → Bool) : Queues κ ι → Queues κ ι
  | [] => []
  | q :: qs =>
    let kept := q.items.filter fun x => !gone x
    if kept.isEmpty then without gone qs else ⟨q.key, kept⟩ :: without gone qs

/-! ## Tidy queues -/

def keys (qs : Queues κ ι) : List κ := qs.map Queue.key

structure Tidy (qs : Queues κ ι) : Prop where
  distinct : (keys qs).Nodup
  filled : ∀ q ∈ qs, q.items ≠ []

theorem queued_of_not_mem {k : κ} : ∀ {qs : Queues κ ι}, k ∉ keys qs → queued qs k = []
  | [], _ => rfl
  | q :: qs, absent => by
    simp only [keys, List.map_cons, List.mem_cons, not_or] at absent
    have other : q.key ≠ k := fun same => absent.1 same.symm
    rw [queued, if_neg other]
    exact queued_of_not_mem absent.2

theorem exists_of_mem_queued {k : κ} {x : ι} : ∀ {qs : Queues κ ι}, x ∈ queued qs k →
    ∃ q ∈ qs, q.key = k ∧ q.items = queued qs k
  | [], member => by cases member
  | q :: qs, member => by
    by_cases same : q.key = k
    · exact ⟨q, by simp, same, by simp [queued, same]⟩
    · simp only [queued, if_neg same] at member ⊢
      obtain ⟨p, inside, at_, items⟩ := exists_of_mem_queued member
      exact ⟨p, by simp [inside], at_, items⟩

theorem queued_of_mem {q : Queue κ ι} : ∀ {qs : Queues κ ι}, (keys qs).Nodup → q ∈ qs →
    queued qs q.key = q.items
  | p :: qs, distinct, member => by
    simp only [keys, List.map_cons, List.nodup_cons] at distinct
    rcases List.mem_cons.mp member with rfl | later
    · simp [queued]
    · have other : p.key ≠ q.key := fun same =>
        distinct.1 (same ▸ List.mem_map_of_mem later)
      rw [queued, if_neg other]
      exact queued_of_mem distinct.2 later

theorem keys_extend (k : κ) (xs : List ι) : ∀ qs : Queues κ ι,
    keys (extend k xs qs) = if k ∈ keys qs then keys qs else keys qs ++ [k]
  | [] => by simp [extend, keys]
  | q :: qs => by
    have ih := keys_extend k xs qs
    by_cases same : q.key = k
    · simp [extend, keys, same]
    · have other : k ≠ q.key := fun eq => same eq.symm
      simp only [extend, if_neg same, keys, List.map_cons, List.mem_cons, other, false_or] at ih ⊢
      rw [ih]
      by_cases inside : k ∈ qs.map Queue.key
      · simp [inside]
      · simp [inside]

theorem queued_extend (k : κ) (xs : List ι) (a : κ) : ∀ qs : Queues κ ι,
    queued (extend k xs qs) a = if a = k then queued qs a ++ xs else queued qs a
  | [] => by
    by_cases same : a = k
    · simp [extend, queued, same]
    · simp [extend, queued, same, Ne.symm same]
  | q :: qs => by
    have ih := queued_extend k xs a qs
    by_cases here : q.key = k
    · by_cases same : a = k
      · simp [extend, queued, here, same]
      · simp [extend, queued, here, same, Ne.symm same]
    · by_cases there : q.key = a
      · have other : a ≠ k := fun same => here (there.trans same)
        simp [extend, queued, there, other]
      · simp only [extend, if_neg here, queued, if_neg there, ih]

omit [DecidableEq κ] in
theorem Tidy.nil : Tidy ([] : Queues κ ι) := ⟨List.nodup_nil, by simp⟩

theorem Tidy.extend {qs : Queues κ ι} (tidy : Tidy qs) (k : κ) {xs : List ι} (some_ : xs ≠ []) :
    Tidy (extend k xs qs) := by
  constructor
  · rw [keys_extend]
    split
    · exact tidy.distinct
    · rename_i absent
      exact List.nodup_append.mpr ⟨tidy.distinct, by simp, by
        rintro a member b last rfl
        cases List.mem_singleton.mp last
        exact absent member⟩
  · have filled := tidy.filled
    clear tidy
    induction qs with
    | nil => simp [Queues.extend, some_]
    | cons q qs ih =>
      intro p member
      simp only [Queues.extend] at member
      split at member
      · rcases List.mem_cons.mp member with rfl | later
        · simp [some_]
        · exact filled p (by simp [later])
      · rcases List.mem_cons.mp member with rfl | later
        · exact filled p (by simp)
        · exact ih (fun q inside => filled q (by simp [inside])) p later

/-! ## Taking out -/

theorem put_sublist (k : κ) (items : List ι) : ∀ qs : Queues κ ι,
    (keys (put k items qs)).Sublist (keys qs)
  | [] => List.Sublist.refl _
  | q :: qs => by
    simp only [put]
    split
    · split
      · exact List.sublist_cons_self _ _
      · exact List.Sublist.refl _
    · exact (put_sublist k items qs).cons_cons q.key

theorem Tidy.put {qs : Queues κ ι} (tidy : Tidy qs) (k : κ) (items : List ι) :
    Tidy (put k items qs) := by
  constructor
  · exact tidy.distinct.sublist (put_sublist k items qs)
  · have filled := tidy.filled
    clear tidy
    induction qs with
    | nil => simp [Queues.put]
    | cons q qs ih =>
      intro p member
      simp only [Queues.put] at member
      split at member
      · split at member
        · exact filled p (by simp [member])
        · rename_i left
          rcases List.mem_cons.mp member with rfl | later
          · simpa using left
          · exact filled p (by simp [later])
      · rcases List.mem_cons.mp member with rfl | later
        · exact filled p (by simp)
        · exact ih (fun q inside => filled q (by simp [inside])) p later

theorem queued_put {k : κ} {items : List ι} (a : κ) : ∀ {qs : Queues κ ι}, (keys qs).Nodup →
    (items ≠ [] → k ∈ keys qs) →
    queued (put k items qs) a = if a = k then items else queued qs a
  | [], _, present => by
    have none_ : items = [] := by
      by_contra some_
      simpa [keys] using present some_
    simp [put, queued, none_]
  | q :: qs, distinct, present => by
    simp only [keys, List.map_cons, List.nodup_cons] at distinct
    by_cases here : q.key = k
    · have absent : k ∉ keys qs := here ▸ distinct.1
      simp only [put, if_pos here]
      split
      · rename_i empty
        have none_ : items = [] := by simpa using empty
        by_cases same : a = k
        · rw [if_pos same, same, queued_of_not_mem absent, none_]
        · rw [if_neg same, queued, if_neg fun eq => same (eq.symm.trans here)]
      · by_cases same : a = k
        · simp [queued, here, same]
        · simp [queued, here, same, Ne.symm same]
    · have present' : items ≠ [] → k ∈ keys qs := fun some_ => by
        have member := present some_
        simp only [keys, List.map_cons, List.mem_cons] at member
        exact member.resolve_left fun same => here same.symm
      simp only [put, if_neg here, queued]
      by_cases there : q.key = a
      · have other : a ≠ k := fun same => here (there.trans same)
        rw [if_pos there, if_neg other, if_pos there]
      · rw [if_neg there, queued_put a distinct.2 present', if_neg there]

omit [DecidableEq κ] in
theorem without_sublist (gone : ι → Bool) : ∀ qs : Queues κ ι,
    (keys (without gone qs)).Sublist (keys qs)
  | [] => List.Sublist.refl _
  | q :: qs => by
    simp only [without]
    split
    · exact (without_sublist gone qs).cons q.key
    · exact (without_sublist gone qs).cons_cons q.key

omit [DecidableEq κ] in
theorem Tidy.without {qs : Queues κ ι} (tidy : Tidy qs) (gone : ι → Bool) :
    Tidy (without gone qs) := by
  constructor
  · exact tidy.distinct.sublist (without_sublist gone qs)
  · clear tidy
    induction qs with
    | nil => simp [Queues.without]
    | cons q qs ih =>
      intro p member
      simp only [Queues.without] at member
      split at member
      · exact ih p member
      · rename_i left
        rcases List.mem_cons.mp member with rfl | later
        · simpa using left
        · exact ih p later

theorem queued_without (gone : ι → Bool) (a : κ) : ∀ {qs : Queues κ ι}, (keys qs).Nodup →
    queued (without gone qs) a = (queued qs a).filter fun x => !gone x
  | [], _ => rfl
  | q :: qs, distinct => by
    simp only [keys, List.map_cons, List.nodup_cons] at distinct
    have ih := queued_without gone a distinct.2
    simp only [without]
    split
    · rename_i empty
      have none_ : (q.items.filter fun x => !gone x) = [] := by simpa using empty
      by_cases here : q.key = a
      · have absent : a ∉ keys qs := here ▸ distinct.1
        rw [ih, queued_of_not_mem absent, queued, if_pos here, none_]
        rfl
      · rw [ih, queued, if_neg here]
    · by_cases here : q.key = a
      · simp [queued, here]
      · simp only [queued, if_neg here, ih]

omit [DecidableEq κ] in
/-- Taking out those of one set and then those of another takes out both. -/
theorem without_without (first second : ι → Bool) : ∀ qs : Queues κ ι,
    without second (without first qs) = without (fun x => first x || second x) qs
  | [] => rfl
  | q :: qs => by
    have ih := without_without first second qs
    have kept : (q.items.filter fun x => !(first x || second x)) =
        (q.items.filter fun x => !first x).filter fun x => !second x := by
      rw [List.filter_filter]
      congr 1
      funext x
      cases first x <;> cases second x <;> rfl
    simp only [without, kept]
    by_cases empty : (q.items.filter fun x => !first x).isEmpty
    · have none_ : (q.items.filter fun x => !first x) = [] := by simpa using empty
      simp [none_, ih]
    · simp only [empty, Bool.false_eq_true, if_false, without]
      split <;> simp only [ih]

/-! ## Who the queues hold -/

/-- The queues hold exactly the members of `S`, each in one queue and once. -/
structure Holds (qs : Queues κ ι) (S : ι → Prop) : Prop where
  tidy : Tidy qs
  nodup : ∀ k, (queued qs k).Nodup
  single : ∀ {j k x}, x ∈ queued qs j → x ∈ queued qs k → j = k
  mem : ∀ x, (∃ k, x ∈ queued qs k) ↔ S x

section Holds

variable {qs : Queues κ ι} {S : ι → Prop}

theorem Holds.nil : Holds ([] : Queues κ ι) fun _ => False where
  tidy := .nil
  nodup := fun _ => List.nodup_nil
  single := fun member => by cases member
  mem := fun _ => by simp [queued]

theorem Holds.congr {S' : ι → Prop} (holds : Holds qs S) (same : ∀ x, S x ↔ S' x) : Holds qs S' :=
  { holds with mem := fun x => (holds.mem x).trans (same x) }

/-- One who waits nowhere comes behind the others at `k`. -/
theorem Holds.extend (holds : Holds qs S) (k : κ) {x : ι} (absent : ¬ S x) :
    Holds (extend k [x] qs) fun y => S y ∨ y = x := by
  have nowhere : ∀ j, x ∉ queued qs j := fun j member => absent ((holds.mem x).mp ⟨j, member⟩)
  have member : ∀ {j y}, y ∈ queued (Queues.extend k [x] qs) j ↔
      y ∈ queued qs j ∨ (j = k ∧ y = x) := fun {j y} => by
    rw [queued_extend]
    split
    · rename_i same
      simp [same]
    · rename_i other
      simp [other]
  refine ⟨holds.tidy.extend k (by simp), fun j => ?_, fun {i j y} first second => ?_, fun y => ?_⟩
  · rw [queued_extend]
    split
    · refine List.nodup_append.mpr ⟨holds.nodup j, by simp, ?_⟩
      rintro y inside z last rfl
      rw [List.mem_singleton.mp last] at inside
      exact nowhere j inside
    · exact holds.nodup j
  · rcases member.mp first with before | ⟨here, rfl⟩
    · rcases member.mp second with after | ⟨-, rfl⟩
      · exact holds.single before after
      · exact absurd before (nowhere i)
    · rcases member.mp second with after | ⟨same, -⟩
      · exact absurd after (nowhere j)
      · exact here.trans same.symm
  · constructor
    · rintro ⟨j, inside⟩
      rcases member.mp inside with inside | ⟨-, same⟩
      · exact .inl ((holds.mem y).mp ⟨j, inside⟩)
      · exact .inr same
    · rintro (inside | same)
      · obtain ⟨j, inside⟩ := (holds.mem y).mpr inside
        exact ⟨j, member.mpr (.inl inside)⟩
      · exact ⟨k, member.mpr (.inr ⟨rfl, same⟩)⟩

theorem Tidy.mem_keys_of_queued (_ : Tidy qs) {k : κ} {x : ι} (member : x ∈ queued qs k) :
    k ∈ keys qs := by
  by_contra absent
  rw [queued_of_not_mem absent] at member
  cases member

theorem queued_put_rest (tidy : Tidy qs) {k : κ} {x : ι} {rest : List ι}
    (head : queued qs k = x :: rest) (j : κ) :
    queued (put k rest qs) j = if j = k then rest else queued qs j :=
  queued_put j tidy.distinct fun _ => tidy.mem_keys_of_queued (x := x) (by simp [head])

/-- The first at `k` leaves. -/
theorem Holds.put (holds : Holds qs S) {k : κ} {x : ι} {rest : List ι}
    (head : queued qs k = x :: rest) : Holds (put k rest qs) fun y => S y ∧ y ≠ x := by
  have queue := holds.nodup k
  rw [head, List.nodup_cons] at queue
  have here : x ∈ queued qs k := by simp [head]
  have member : ∀ {j y}, y ∈ queued (Queues.put k rest qs) j ↔ y ∈ queued qs j ∧ y ≠ x :=
      fun {j y} => by
    rw [queued_put_rest holds.tidy head]
    split
    · rename_i same
      subst same
      rw [head, List.mem_cons]
      constructor
      · exact fun inside => ⟨.inr inside, fun same => queue.1 (same ▸ inside)⟩
      · rintro ⟨same | inside, differs⟩
        · exact absurd same differs
        · exact inside
    · rename_i other
      refine ⟨fun inside => ⟨inside, ?_⟩, And.left⟩
      rintro rfl
      exact other (holds.single inside here)
  refine ⟨holds.tidy.put k rest, fun j => ?_, fun first second => ?_, fun y => ?_⟩
  · rw [queued_put_rest holds.tidy head]
    split
    · exact queue.2
    · exact holds.nodup j
  · exact holds.single (member.mp first).1 (member.mp second).1
  · constructor
    · rintro ⟨j, inside⟩
      exact ⟨(holds.mem y).mp ⟨j, (member.mp inside).1⟩, (member.mp inside).2⟩
    · rintro ⟨inside, differs⟩
      obtain ⟨j, inside⟩ := (holds.mem y).mpr inside
      exact ⟨j, member.mpr ⟨inside, differs⟩⟩

/-- Those who are `gone` leave. -/
theorem Holds.without (holds : Holds qs S) (gone : ι → Bool) :
    Holds (without gone qs) fun y => S y ∧ gone y = false := by
  have queue := fun j => queued_without gone j holds.tidy.distinct
  have member : ∀ {j y}, y ∈ queued (Queues.without gone qs) j ↔
      y ∈ queued qs j ∧ gone y = false := fun {j y} => by simp [queue]
  refine ⟨holds.tidy.without gone, fun j => ?_, fun first second => ?_, fun y => ?_⟩
  · rw [queue]
    exact (holds.nodup j).filter _
  · exact holds.single (member.mp first).1 (member.mp second).1
  · constructor
    · rintro ⟨j, inside⟩
      exact ⟨(holds.mem y).mp ⟨j, (member.mp inside).1⟩, (member.mp inside).2⟩
    · rintro ⟨inside, stays⟩
      obtain ⟨j, inside⟩ := (holds.mem y).mpr inside
      exact ⟨j, member.mpr ⟨inside, stays⟩⟩

/-- All who wait, queue by queue: nobody twice. -/
theorem Holds.flatMap_nodup (holds : Holds qs S) : (qs.flatMap Queue.items).Nodup := by
  have at_ : ∀ q ∈ qs, queued qs q.key = q.items := fun q member =>
    queued_of_mem holds.tidy.distinct member
  rw [List.nodup_flatMap]
  refine ⟨fun q member => at_ q member ▸ holds.nodup q.key, ?_⟩
  have apart := holds.tidy.distinct
  rw [keys, List.nodup_iff_pairwise_ne, List.pairwise_map] at apart
  refine apart.imp_of_mem fun {p q} left right differ => ?_
  intro x first second
  rw [← at_ p left] at first
  rw [← at_ q right] at second
  exact differ (holds.single first second)

omit [DecidableEq κ] in
theorem Tidy.length_le (tidy : Tidy qs) : qs.length ≤ (qs.flatMap Queue.items).length := by
  have filled := tidy.filled
  clear tidy
  induction qs with
  | nil => simp
  | cons q qs ih =>
    have some_ := List.length_pos_iff.mpr (filled q (by simp))
    have rest := ih fun p inside => filled p (by simp [inside])
    rw [List.flatMap_cons, List.length_append, List.length_cons]
    omega

/-- A key nobody waits at has no queue. -/
theorem put_of_queued_nil {k : κ} {items : List ι} : ∀ {qs : Queues κ ι}, (∀ q ∈ qs, q.items ≠ []) →
    queued qs k = [] → put k items qs = qs
  | [], _, _ => rfl
  | q :: qs, filled, none_ => by
    by_cases here : q.key = k
    · rw [queued, if_pos here] at none_
      exact absurd none_ (filled q (by simp))
    · rw [queued, if_neg here] at none_
      rw [put, if_neg here, put_of_queued_nil (fun p inside => filled p (by simp [inside])) none_]

end Holds

/-! ## Building queues again -/

theorem extend_extend (k : κ) (xs ys : List ι) : ∀ qs : Queues κ ι,
    extend k ys (extend k xs qs) = extend k (xs ++ ys) qs
  | [] => by simp [extend]
  | q :: qs => by
    by_cases here : q.key = k
    · simp [extend, here]
    · simp [extend, here, extend_extend k xs ys qs]

theorem extend_of_not_mem {k : κ} {xs : List ι} : ∀ {qs : Queues κ ι}, k ∉ keys qs →
    extend k xs qs = qs ++ [⟨k, xs⟩]
  | [], _ => rfl
  | q :: qs, absent => by
    simp only [keys, List.map_cons, List.mem_cons, not_or] at absent
    have other : q.key ≠ k := fun same => absent.1 same.symm
    rw [extend, if_neg other, extend_of_not_mem absent.2]
    rfl

end Queues

/-! ## Order of arrival -/

section Behind

variable {α : Type} [DecidableEq α] {before after : List α}

/-- Those of a queue that stay keep their order, and those that come stand behind them. -/
def Behind (before after : List α) : Prop :=
  ∃ new, after = before.filter (· ∈ after) ++ new ∧ ∀ x ∈ new, x ∉ before

theorem Behind.refl (before : List α) : Behind before before := by
  refine ⟨[], ?_, by simp⟩
  rw [List.append_nil]
  exact (List.filter_eq_self.mpr fun x member => by simpa using member).symm

theorem Behind.append {new : List α} (fresh : ∀ x ∈ new, x ∉ before) :
    Behind before (before ++ new) := by
  refine ⟨new, ?_, fresh⟩
  congr 1
  exact (List.filter_eq_self.mpr fun x member => by simp [member]).symm

theorem Behind.filter (behind : Behind before after) (keep : α → Bool) :
    Behind before (after.filter keep) := by
  obtain ⟨new, parts, fresh⟩ := behind
  refine ⟨new.filter keep, ?_, fun x member => fresh x (List.mem_filter.mp member).1⟩
  have stay : before.filter (· ∈ after.filter keep) =
      (before.filter (· ∈ after)).filter keep := by
    rw [List.filter_filter]
    refine List.filter_congr fun x _ => ?_
    simp [List.mem_filter, Bool.and_comm]
  rw [stay, ← List.filter_append, ← parts]

/-- Some leave from the front. -/
theorem Behind.drop (distinct : before.Nodup) (n : Nat) : Behind before (before.drop n) := by
  refine ⟨[], ?_, by simp⟩
  rw [List.append_nil]
  have parts := List.take_append_drop n before
  have apart : ∀ x ∈ before.take n, x ∉ before.drop n := fun x first second => by
    have split_ := distinct
    rw [← parts, List.nodup_append] at split_
    exact split_.2.2 x first x second rfl
  conv_rhs => rw [← parts]
  rw [List.filter_append, parts]
  have none_ : (before.take n).filter (· ∈ before.drop n) = [] :=
    List.filter_eq_nil_iff.mpr fun x member => by simpa using apart x member
  have all : (before.drop n).filter (· ∈ before.drop n) = before.drop n :=
    List.filter_eq_self.mpr fun x member => by simpa using member
  rw [none_, all, List.nil_append]

/-- A queue in order of arrival stays so, when those who come arrive `now`. -/
theorem Behind.pairwise {since since' : α → Nat} {now : Nat} (behind : Behind before after)
    (ordered : before.Pairwise fun x y => since x ≤ since y) (past : ∀ x ∈ before, since x ≤ now)
    (arrive : ∀ x ∈ after, since' x = if x ∈ before then since x else now) :
    after.Pairwise fun x y => since' x ≤ since' y := by
  obtain ⟨new, parts, fresh⟩ := behind
  have stay : ∀ x ∈ before.filter (· ∈ after), since' x = since x := fun x member => by
    obtain ⟨inside, there⟩ := List.mem_filter.mp member
    rw [arrive x (by simpa using there), if_pos inside]
  have come : ∀ x ∈ new, since' x = now := fun x member => by
    have there : x ∈ after := by rw [parts]; simp [member]
    rw [arrive x there, if_neg (fresh x member)]
  rw [parts, List.pairwise_append]
  refine ⟨?_, ?_, ?_⟩
  · refine (ordered.sublist List.filter_sublist).imp_of_mem fun {x y} first second le => ?_
    rw [stay x first, stay y second]
    exact le
  · exact List.pairwise_of_forall_mem_list fun x first y second =>
      Nat.le_of_eq ((come x first).trans (come y second).symm)
  · intro x first y second
    rw [stay x first, come y second]
    exact past x (List.mem_filter.mp first).1

end Behind

end MiniBox.Lib
