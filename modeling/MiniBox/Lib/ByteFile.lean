import MiniBox.Lib.Bytes
import Mathlib.Data.List.TakeDrop

/-!
# A file as a sequence of bytes

A file has a length and a byte at every place, which is zero past the length.  A write puts its
bytes at their places and lengthens the file when they reach past its end; the gap it leaves is
zero because it was.  A truncation makes everything past the new end zero, so that nothing from
before it comes back when the file grows again.
-/

namespace MiniBox.Lib

@[ext]
structure ByteFile where
  len : Nat
  byte : Nat → UInt8
  blank : ∀ i, len ≤ i → byte i = 0

namespace ByteFile

def empty : ByteFile := ⟨0, fun _ => 0, fun _ _ => rfl⟩

/-- The bytes from `pos` on, at most `n`, up to the end. -/
def read (f : ByteFile) (pos n : Nat) : Bytes :=
  (List.range (min n (f.len - pos))).map fun i => f.byte (pos + i)

/-- The file with `buf` at `at_`. -/
def write (f : ByteFile) (at_ : Nat) (buf : Bytes) : ByteFile where
  len := max f.len (at_ + buf.length)
  byte i := if at_ ≤ i ∧ i < at_ + buf.length then buf.getD (i - at_) 0 else f.byte i
  blank i past := by
    rw [if_neg (by omega)]
    exact f.blank i (by omega)

/-- The file with its end at `size`. -/
def truncate (f : ByteFile) (size : Nat) : ByteFile where
  len := size
  byte i := if i < size then f.byte i else 0
  blank i past := if_neg (by omega)

/-- The file with these bytes. -/
def of (data : Bytes) : ByteFile where
  len := data.length
  byte i := data.getD i 0
  blank i past := by rw [List.getD_eq_getElem?_getD, List.getElem?_eq_none past]; rfl

theorem of_byte {data : Bytes} {i : Nat} : (of data).byte i = (data[i]?).getD 0 :=
  List.getD_eq_getElem?_getD

theorem read_of (data : Bytes) (pos n : Nat) : (of data).read pos n = (data.drop pos).take n := by
  have length : (of data).len = data.length := rfl
  refine List.ext_getElem? fun i => ?_
  rw [read, List.getElem?_map, List.getElem?_take, List.getElem?_drop, length]
  by_cases inside : i < min n (data.length - pos)
  · have here : pos + i < data.length := by omega
    rw [List.getElem?_range inside, if_pos (by omega), Option.map_some, of_byte,
      List.getElem?_eq_getElem here, Option.getD_some]
  · rw [List.getElem?_eq_none (by rw [List.length_range]; omega), Option.map_none]
    split
    · rw [List.getElem?_eq_none (by omega)]
    · rfl

theorem read_length (f : ByteFile) (pos n : Nat) : (f.read pos n).length = min n (f.len - pos) := by
  rw [read, List.length_map, List.length_range]

/-- A list with what a write leaves is the file written. -/
theorem of_write {data data' : Bytes} {at_ : Nat} {buf : Bytes}
    (length : data'.length = max data.length (at_ + buf.length))
    (bytes : ∀ i < data'.length, data'[i]? =
      if i < at_ then if i < data.length then data[i]? else some 0
      else if i < at_ + buf.length then buf[i - at_]? else data[i]?) :
    of data' = (of data).write at_ buf := by
  ext1
  · exact length
  · funext i
    have written : ((of data).write at_ buf).byte i =
        if at_ ≤ i ∧ i < at_ + buf.length then buf.getD (i - at_) 0 else (of data).byte i := rfl
    by_cases inside : i < data'.length
    · rw [of_byte, bytes i inside, written]
      by_cases before : i < at_
      · have outside : ¬ (at_ ≤ i ∧ i < at_ + buf.length) := by omega
        rw [if_pos before, if_neg outside, of_byte]
        split
        · rfl
        next past => rw [List.getElem?_eq_none (by omega), Option.getD_none, Option.getD_some]
      · rw [if_neg before]
        by_cases new : i < at_ + buf.length
        · rw [if_pos new, if_pos ⟨Nat.not_lt.mp before, new⟩, List.getD_eq_getElem?_getD]
        · rw [if_neg new, if_neg fun both => new both.2, of_byte]
    · rw [(of data').blank i (Nat.not_lt.mp inside), blank]
      show max data.length (at_ + buf.length) ≤ i
      omega

/-- A list with what a truncation leaves is the file truncated. -/
theorem of_truncate {data data' : Bytes} {size : Nat} (length : data'.length = size)
    (bytes : ∀ i < size, data'[i]? = if i < data.length then data[i]? else some 0) :
    of data' = (of data).truncate size := by
  ext1
  · exact length
  · funext i
    have cut : ((of data).truncate size).byte i = if i < size then (of data).byte i else 0 := rfl
    rw [of_byte, cut]
    by_cases inside : i < size
    · rw [if_pos inside, bytes i inside, of_byte]
      split
      · rfl
      next past => rw [List.getElem?_eq_none (by omega), Option.getD_none, Option.getD_some]
    · rw [if_neg inside, List.getElem?_eq_none (by omega), Option.getD_none]

end ByteFile

end MiniBox.Lib
