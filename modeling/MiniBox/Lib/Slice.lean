import MiniBox.Lib.Bytes
import Mathlib.Data.List.TakeDrop

/-!
# Numbers and strings inside bytes

`u16At`, `u32At` and `u64At` are the little-endian numbers at a place in a list of bytes, and
`textAt` is the text there up to its terminator.  `patch` changes nothing but the bytes it names.
-/

namespace MiniBox.Lib

def u16At (bs : Bytes) (i : Nat) : UInt16 := UInt16.ofNat (leVal ((bs.drop i).take 2))

def u32At (bs : Bytes) (i : Nat) : UInt32 := UInt32.ofNat (leVal ((bs.drop i).take 4))

def u64At (bs : Bytes) (i : Nat) : UInt64 := UInt64.ofNat (leVal ((bs.drop i).take 8))

/-- The text at a place, without its terminator; `none` if it has none. -/
def textAt (bs : Bytes) (i : Nat) : Option Bytes :=
  if 0 ∈ bs.drop i then some ((bs.drop i).takeWhile (· ≠ 0)) else none

/-- A text that ends inside is there. -/
theorem textAt_isSome {bs : Bytes} {i last : Nat} (before : i ≤ last) (ends : bs[last]? = some 0) :
    (textAt bs i).isSome = true := by
  have member : 0 ∈ bs.drop i := by
    refine List.mem_of_getElem? (i := last - i) ?_
    rw [List.getElem?_drop, Nat.add_sub_cancel' before]
    exact ends
  rw [textAt, if_pos member]
  rfl

/-! ## Bytes put in the place of others -/

/-- `bs` with `data` in the place of what is at `off`. -/
def patch (bs : Bytes) (off : Nat) (data : Bytes) : Bytes :=
  bs.take off ++ data ++ bs.drop (off + data.length)

section Patch

variable {bs data : Bytes} {off i : Nat}

section

variable (fits : off + data.length ≤ bs.length)
include fits

theorem patch_length : (patch bs off data).length = bs.length := by
  simp only [patch, List.length_append, List.length_take, List.length_drop]
  omega

theorem patch_inside (from_ : off ≤ i) (upto : i < off + data.length) :
    (patch bs off data)[i]? = data[i - off]? := by
  have before : (bs.take off).length = off := by
    rw [List.length_take]
    omega
  rw [patch, List.append_assoc, List.getElem?_append_right (by omega), before,
    List.getElem?_append_left (by omega)]

theorem patch_outside (apart : i < off ∨ off + data.length ≤ i) :
    (patch bs off data)[i]? = bs[i]? := by
  have before : (bs.take off).length = off := by
    rw [List.length_take]
    omega
  cases apart with
  | inl lower =>
    rw [patch, List.append_assoc, List.getElem?_append_left (by omega),
      List.getElem?_take_of_lt lower]
  | inr upper =>
    rw [patch, List.append_assoc, List.getElem?_append_right (by omega), before,
      List.getElem?_append_right (by omega), List.getElem?_drop]
    congr 1
    omega

end

end Patch

/-! ## Bytes at a place -/

/-- The bytes `data` stand at place `i`. -/
def Has (bs : Bytes) (i : Nat) (data : Bytes) : Prop := ∀ k < data.length, bs[i + k]? = data[k]?

namespace Has

variable {bs cs data more : Bytes} {i : Nat}

theorem inside (has : Has bs i data) (some_ : data ≠ []) : i + data.length ≤ bs.length := by
  have size := List.length_pos_iff.mpr some_
  have last := has (data.length - 1) (by omega)
  have there : data[data.length - 1]? = some _ := List.getElem?_eq_getElem (by omega)
  obtain ⟨below, -⟩ := List.getElem?_eq_some_iff.mp (last.trans there)
  omega

theorem congr (has : Has bs i data) (same : ∀ k < data.length, cs[i + k]? = bs[i + k]?) :
    Has cs i data := by
  intro k below
  rw [same k below, has k below]

end Has

theorem patch_has {bs data : Bytes} {off : Nat} (fits : off + data.length ≤ bs.length) :
    Has (patch bs off data) off data := by
  intro k below
  rw [patch_inside fits (by omega) (by omega), Nat.add_sub_cancel_left]

end MiniBox.Lib
