import MiniBox.Lib.Slice
import Mathlib.Data.List.DropRight

/-!
# A ring of the newest bytes

A ring of a fixed number of cells takes one piece of a history after the other, each where the
last one ended and from the start again past the end.  The byte at place `k` of the history
is at `(k + shift) % size`, for one `shift` that stays as the history grows; a ring that is
filled anew at its start begins another.  `Holds` says that the cells have what is not yet
written over.
-/

namespace MiniBox.Lib

/-- A step along a ring goes on, or comes round once. -/
theorem add_mod_cases (a : Nat) {d size : Nat} (pos : 0 < size) (small : d ≤ size) :
    (a + d) % size = if a % size + d < size then a % size + d else a % size + d - size := by
  have inside := Nat.mod_lt a pos
  rw [← Nat.mod_add_mod]
  split
  next before => exact Nat.mod_eq_of_lt before
  next round =>
    rw [Nat.mod_eq_sub_mod (by omega)]
    exact Nat.mod_eq_of_lt (by omega)

/-- The cells have the newest of a history. -/
def Holds (cells : Bytes) (shift : Nat) (history : Bytes) : Prop :=
  ∀ k < history.length, history.length ≤ k + cells.length →
    cells[(k + shift) % cells.length]? = history[k]?

namespace Holds

variable {cells history piece : Bytes} {shift at_ : Nat}

theorem nil : Holds cells shift [] := fun _ inside => absurd inside (Nat.not_lt_zero _)

/-- A piece put where the history ends, up to the end of the ring at most. -/
theorem patch (h : Holds cells shift history) (next : at_ = (history.length + shift) % cells.length)
    (pos : 0 < cells.length) (fits : at_ + piece.length ≤ cells.length) :
    Holds (patch cells at_ piece) shift (history ++ piece) := by
  intro k inside new
  rw [patch_length fits] at new ⊢
  rw [List.length_append] at inside new
  by_cases old : k < history.length
  · -- what the piece does not reach: fewer than a ring's length before the end
    have place := @add_mod_cases (k + shift) (history.length - k) cells.length pos (by omega)
    rw [show k + shift + (history.length - k) = history.length + shift by omega, ← next] at place
    have bound := Nat.mod_lt (k + shift) pos
    rw [List.getElem?_append_left old, ← h k old (by omega)]
    refine patch_outside fits ?_
    split at place <;> omega
  · have place := @add_mod_cases (history.length + shift) (k - history.length) cells.length pos
      (by omega)
    rw [show history.length + shift + (k - history.length) = k + shift by omega, ← next,
      if_pos (by omega)] at place
    rw [List.getElem?_append_right (by omega), place, patch_inside fits (by omega) (by omega)]
    congr 1
    omega

/-- A piece as long as the ring, put at its start. -/
theorem whole (aligned : (history.length + shift) % piece.length = 0) :
    Holds piece shift (history ++ piece) := by
  intro k inside new
  rw [List.length_append] at inside new
  have place := @add_mod_cases (history.length + shift) (k - history.length) piece.length
    (by omega) (by omega)
  rw [show history.length + shift + (k - history.length) = k + shift by omega, aligned,
    if_pos (by omega)] at place
  rw [List.getElem?_append_right (by omega), place, Nat.zero_add]

/-- The newest bytes, read back oldest first. -/
theorem read (h : Holds cells shift history) {take : Nat} (ring : take ≤ cells.length)
    (written : take ≤ history.length) :
    (List.range take).map (fun i =>
        cells.getD ((history.length - take + i + shift) % cells.length) 0) =
        history.rtake take := by
  rw [List.rtake]
  refine List.ext_getElem? fun i => ?_
  rw [List.getElem?_drop]
  by_cases inside : i < take
  · rw [List.getElem?_map, List.getElem?_range inside, Option.map_some, List.getD_eq_getElem?_getD,
      h _ (by omega) (by omega), List.getElem?_eq_getElem (by omega), Option.getD_some]
  · rw [List.getElem?_eq_none (by simp; omega), List.getElem?_eq_none (by omega)]

end Holds

end MiniBox.Lib
