import MiniBox.Lib.Bytes

/-!
# Reading through a callback

A callback asked for `n` bytes hands over at most `n` of those it has still to deliver, at
least one while there are any, and so cuts its stream as it likes.  `Reader` is such a
callback with its states.  `fill` asks until `n` bytes have come, `drain` until none come.

What a reader's user computes does not depend on the cuts: `Follows` relates a result read
through a callback to the result read from the contiguous bytes, and each way of reading
has a lemma that the two are so related.
-/

namespace MiniBox.Lib

structure Reader where
  State : Type
  /-- what comes when `n` bytes are asked for -/
  read : Nat → State → Bytes × State
  /-- the bytes not delivered yet -/
  remaining : State → Bytes
  delivers : ∀ n s, (read n s).1 ++ remaining (read n s).2 = remaining s
  atMost : ∀ n s, (read n s).1.length ≤ n
  atLeastOne : ∀ n s, 0 < n → (read n s).1 = [] → remaining s = []

/-- Whoever reads from a stream that is cut as `size` says: the `k`th piece has at most
`size k + 1` bytes. -/
def Reader.cut (size : Nat → Nat) : Reader where
  State := Nat × Bytes
  read n s := (s.2.take (min n (size s.1 + 1)), s.1 + 1, s.2.drop (min n (size s.1 + 1)))
  remaining s := s.2
  delivers n s := List.take_append_drop _ s.2
  atMost n s := by
    rw [List.length_take]
    omega
  atLeastOne n s asked nothing := by
    rw [List.take_eq_nil_iff] at nothing
    rcases nothing with none | all
    · omega
    · exact all

namespace Reader

variable (r : Reader) {α β ε : Type}

/-! ## Filling a buffer -/

/-- Exactly `n` bytes, or `none` when the stream ends before. -/
def fill (n : Nat) (s : r.State) : Option (Bytes × r.State) :=
  if n = 0 then some ([], s)
  else
    let came := r.read n s
    if came.1 = [] then none
    else (fill (n - came.1.length) came.2).map fun more => (came.1 ++ more.1, more.2)
termination_by n
decreasing_by
  have := List.length_pos_iff.mpr ‹¬ (r.read n s).1 = []›
  omega

/-- A result read through the callback and the one read from its bytes. -/
inductive Follows : Except ε (α × r.State) → Except ε (α × Bytes) → Prop
  | error (e : ε) : Follows (.error e) (.error e)
  | ok (a : α) (s : r.State) : Follows (.ok (a, s)) (.ok (a, r.remaining s))

/-- The same for a read that may find the end of the stream. -/
inductive Fills : Option (α × r.State) → Option (α × Bytes) → Prop
  | none : Fills none none
  | some (a : α) (s : r.State) : Fills (some (a, s)) (some (a, r.remaining s))

/-- The next `n` bytes, the first of them already there. -/
theorem rd_resume {n : Nat} {came : Bytes} (few : came.length ≤ n) (rest : Bytes) :
    rd n (came ++ rest) = (rd (n - came.length) rest).map fun more => (came ++ more.1, more.2) := by
  unfold rd
  by_cases enough : n - came.length ≤ rest.length
  · rw [if_pos enough, if_pos (by rw [List.length_append]; omega), Option.map_some,
      List.take_append, List.drop_append, List.take_of_length_le few, List.drop_of_length_le few,
      List.nil_append]
  · rw [if_neg enough, if_neg (by rw [List.length_append]; omega), Option.map_none]

/-- However the stream is cut, `n` bytes are its next `n`. -/
theorem fill_fills (n : Nat) (s : r.State) : r.Fills (r.fill n s) (rd n (r.remaining s)) := by
  fun_induction fill with
  | case1 s => exact .some [] s
  | case2 n s asked came nothing =>
    have ended : r.remaining s = [] := r.atLeastOne n s (Nat.pos_of_ne_zero asked) nothing
    have short : rd n ([] : Bytes) = none := if_neg (by simpa using asked)
    rw [ended, short]
    exact .none
  | case3 n s asked came something ih =>
    rw [← r.delivers n s, rd_resume (r.atMost n s)]
    generalize r.fill _ came.2 = through, rd _ (r.remaining came.2) = direct at ih
    cases ih with
    | none => exact .none
    | some more s => exact .some (came.1 ++ more) s

theorem fill_length {n : Nat} {s : r.State} {got : Bytes × r.State}
    (filled : r.fill n s = some got) :
    got.1.length = n := by
  have fills := r.fill_fills n s
  rw [filled] at fills
  generalize direct : rd n (r.remaining s) = read at fills
  cases fills with
  | some bs s => exact (rd_eq_some.mp direct).2

/-- The bytes a stream starts with come first. -/
theorem fill_append {n : Nat} {s : r.State} {bs rest : Bytes}
    (starts : r.remaining s = bs ++ rest) (length : bs.length = n) :
    ∃ s', r.fill n s = some (bs, s') ∧ r.remaining s' = rest := by
  have fills := r.fill_fills n s
  rw [starts, rd_append length] at fills
  generalize r.fill n s = through at fills
  cases fills with
  | some bs s' => exact ⟨s', rfl, rfl⟩

/-! ## Reading to the end -/

/-- Everything the callback still hands over, asked for `size` bytes at a time. -/
def drain (size : Nat) (s : r.State) : Bytes :=
  let came := r.read size s
  if came.1 = [] then [] else came.1 ++ drain size came.2
termination_by (r.remaining s).length
decreasing_by
  have := List.length_pos_iff.mpr ‹¬ (r.read size s).1 = []›
  rw [← r.delivers size s, List.length_append]
  omega

theorem drain_eq {size : Nat} (asked : 0 < size) (s : r.State) :
    r.drain size s = r.remaining s := by
  fun_induction drain with
  | case1 s came nothing => exact (r.atLeastOne size s asked nothing).symm
  | case2 s came something ih => rw [ih, r.delivers size s]

/-! ## Lists -/

theorem readMany_follows {one : r.State → Except ε (α × r.State)}
    {direct : Bytes → Except ε (α × Bytes)}
    (follows : ∀ s, r.Follows (one s) (direct (r.remaining s))) (count : Nat) (s : r.State) :
    r.Follows (readMany one count s) (readMany direct count (r.remaining s)) := by
  induction count generalizing s with
  | zero => exact .ok [] s
  | succ count ih =>
    have first := follows s
    unfold readMany
    generalize one s = through, direct (r.remaining s) = read at first
    cases first with
    | error e => exact .error e
    | ok x s =>
      have later := ih s
      dsimp only
      generalize readMany one count s = through, readMany direct count (r.remaining s) = read
        at later
      cases later with
      | error e => exact .error e
      | ok xs s => exact .ok (x :: xs) s

end Reader

end MiniBox.Lib
