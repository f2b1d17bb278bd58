import Mathlib.Data.List.Basic
import Mathlib.Tactic.Ring

/-!
# Bytes on a stream

Numbers are written little-endian at a fixed width, `le`, and read back with
`leVal`.  A stream is the list of the bytes not read yet.  `rd n` takes the
next `n` of them or, at the end of the stream, answers `none`; `fillFrom` is
what a buffer holds when a read into it stopped short.  `readMany` reads a list
of known length, entry by entry, and stops at the first that fails.
-/

namespace MiniBox.Lib

abbrev Bytes := List UInt8

/-! ## Fixed-width little-endian numbers -/

/-- The low `width` bytes of `v`, least significant first. -/
def le : Nat → Nat → Bytes
  | 0, _ => []
  | width + 1, v => UInt8.ofNat (v % 256) :: le width (v / 256)

def leVal : Bytes → Nat
  | [] => 0
  | byte :: rest => byte.toNat + 256 * leVal rest

@[simp] theorem le_length : ∀ (width v : Nat), (le width v).length = width
  | 0, _ => rfl
  | width + 1, v => by simp [le, le_length width]

theorem leVal_le_mod : ∀ (width v : Nat), leVal (le width v) = v % 256 ^ width
  | 0, v => by simp [le, leVal, Nat.mod_one]
  | width + 1, v => by
    have low : (UInt8.ofNat (v % 256)).toNat = v % 256 := by
      rw [UInt8.toNat_ofNat']
      omega
    rw [le, leVal, leVal_le_mod width, low, Nat.pow_succ', Nat.mod_mul]

theorem leVal_le {width v : Nat} (h : v < 256 ^ width) : leVal (le width v) = v := by
  rw [leVal_le_mod, Nat.mod_eq_of_lt h]

theorem leVal_lt : ∀ (bs : Bytes), leVal bs < 256 ^ bs.length
  | [] => by simp [leVal]
  | byte :: rest => by
    have small := byte.toNat_lt
    have ih := leVal_lt rest
    rw [leVal, List.length_cons, Nat.pow_succ']
    omega

theorem le_leVal : ∀ (bs : Bytes), le bs.length (leVal bs) = bs
  | [] => rfl
  | byte :: rest => by
    have small := byte.toNat_lt
    have low : (byte.toNat + 256 * leVal rest) % 256 = byte.toNat := by omega
    have high : (byte.toNat + 256 * leVal rest) / 256 = leVal rest := by omega
    rw [List.length_cons, le, leVal, low, high, le_leVal rest, UInt8.ofNat_toNat]

/-! ## Reading -/

/-- The next `n` bytes and what is left, or `none` when fewer are left. -/
def rd (n : Nat) (stream : Bytes) : Option (Bytes × Bytes) :=
  if n ≤ stream.length then some (stream.take n, stream.drop n) else none

theorem rd_append {n : Nat} {bs : Bytes} (h : bs.length = n) (rest : Bytes) :
    rd n (bs ++ rest) = some (bs, rest) := by
  subst h
  simp [rd]

theorem rd_eq_some {n : Nat} {stream bs rest : Bytes} :
    rd n stream = some (bs, rest) ↔ stream = bs ++ rest ∧ bs.length = n := by
  constructor
  · intro h
    unfold rd at h
    split at h
    · simp only [Option.some.injEq, Prod.mk.injEq] at h
      obtain ⟨rfl, rfl⟩ := h
      simp; omega
    · simp at h
  · rintro ⟨rfl, h⟩
    exact rd_append h rest

/-- What was read is read from a longer stream. -/
theorem rd_more {n : Nat} {stream bs rest : Bytes} (reads : rd n stream = some (bs, rest))
    (more : Bytes) : rd n (stream ++ more) = some (bs, rest ++ more) := by
  obtain ⟨rfl, length⟩ := rd_eq_some.mp reads
  rw [List.append_assoc]
  exact rd_append length _

/-- A buffer after a read that stopped short: the bytes that came, then what
it held before. -/
def fillFrom (came buffer : Bytes) : Bytes := came ++ buffer.drop came.length

theorem fillFrom_length {came buffer : Bytes} (h : came.length ≤ buffer.length) :
    (fillFrom came buffer).length = buffer.length := by
  simp [fillFrom]; omega

/-! ## Reading lists -/

section Lists

variable {α β ε σ : Type}

@[simp] theorem ok_bind (a : α) (f : α → Except ε β) : (Except.ok a >>= f) = f a := rfl

@[simp] theorem error_bind (e : ε) (f : α → Except ε β) : (Except.error e >>= f) = .error e := rfl

/-- `count` entries, each read by `one` from what the ones before left. -/
def readMany (one : σ → Except ε (α × σ)) : Nat → σ → Except ε (List α × σ)
  | 0, stream => .ok ([], stream)
  | count + 1, stream =>
    match one stream with
    | .error e => .error e
    | .ok (x, stream) =>
      match readMany one count stream with
      | .error e => .error e
      | .ok (xs, stream) => .ok (x :: xs, stream)

/-- A list written entry by entry is read back. -/
theorem readMany_flatMap {one : Bytes → Except ε (α × Bytes)} {encode : α → Bytes} :
    ∀ {xs : List α} (rest : Bytes), (∀ x ∈ xs, ∀ rest, one (encode x ++ rest) = .ok (x, rest)) →
      readMany one xs.length (xs.flatMap encode ++ rest) = .ok (xs, rest)
  | [], _, _ => rfl
  | x :: xs, rest, reads => by
    have tail : readMany one xs.length (xs.flatMap encode ++ rest) = .ok (xs, rest) :=
      readMany_flatMap rest fun y hy => reads y (by simp [hy])
    rw [List.flatMap_cons, List.append_assoc, List.length_cons, readMany, reads x (by simp)]
    simp only [tail]

/-- A list of entries of one width. -/
theorem length_flatMap_width {encode : α → Bytes} {width : Nat} {xs : List α}
    (each : ∀ x ∈ xs, (encode x).length = width) :
    (xs.flatMap encode).length = xs.length * width := by
  rw [List.length_flatMap, List.map_congr_left each, List.map_const', List.sum_replicate_nat]

end Lists

end MiniBox.Lib
