import Mathlib.Data.Nat.NthRoot.Defs
import MiniBox.Sha256

/-!
# The hash against the standard

FIPS 180-4 computes SHA-256 of a whole message: it is padded to whole blocks, and each block
changes eight words through a schedule of 64 (`Standard`).  The host's code is fed the message in
pieces.  What it holds in between is the hash of the whole blocks so far and the bytes after them
(`Fed`), however the message was cut; the padding goes the same way, byte by byte.
-/

namespace MiniBox.Sha256

open Lib

/-! ## The standard -/

namespace Standard

def ch (x y z : UInt32) : UInt32 := (x &&& y) ^^^ (~~~x &&& z)

def maj (x y z : UInt32) : UInt32 := (x &&& y) ^^^ (x &&& z) ^^^ (y &&& z)

def rotr (n : Nat) (x : UInt32) : UInt32 := ⟨x.toBitVec.rotateRight n⟩

def bigSigma0 (x : UInt32) : UInt32 := rotr 2 x ^^^ rotr 13 x ^^^ rotr 22 x

def bigSigma1 (x : UInt32) : UInt32 := rotr 6 x ^^^ rotr 11 x ^^^ rotr 25 x

def sigma0 (x : UInt32) : UInt32 := rotr 7 x ^^^ rotr 18 x ^^^ (x >>> 3)

def sigma1 (x : UInt32) : UInt32 := rotr 17 x ^^^ rotr 19 x ^^^ (x >>> 10)

/-- The number that bytes stand for, the highest first. -/
def ofBytes (bytes : Bytes) : Nat := bytes.foldl (fun v b => 256 * v + b.toNat) 0

/-- The `n` lowest bytes of a number, the highest first. -/
def toBytes (n v : Nat) : Bytes := (List.range n).map fun i => UInt8.ofNat (v / 256 ^ (n - 1 - i))

/-- The first 64 primes. -/
def primes : List Nat :=
  (List.range 312).filter fun p => 2 ≤ p ∧ ∀ d ∈ List.range p, 2 ≤ d → ¬ d ∣ p

/-- The first 32 bits of the fractional parts of the cube roots of the first 64 primes. -/
def constants : List UInt32 := primes.map fun p => UInt32.ofNat (Nat.nthRoot 3 (p * 2 ^ 96))

/-- The first 32 bits of the fractional parts of the square roots of the first eight. -/
def initial : List UInt32 :=
  (primes.take 8).map fun p => UInt32.ofNat (Nat.nthRoot 2 (p * 2 ^ 64))

/-- The message schedule of a block. -/
def w (block : Bytes) (t : Nat) : UInt32 :=
  if t < 16 then UInt32.ofNat (ofBytes ((List.range 4).map fun j => block.getD (4 * t + j) 0))
  else
    sigma1 (w block (t - 2)) + w block (t - 7) + sigma0 (w block (t - 15)) + w block (t - 16)

/-- One step on the working variables `a` to `h`. -/
def step (block : Bytes) : List UInt32 → Nat → List UInt32
  | [a, b, c, d, e, f, g, h], t =>
    let t1 := h + bigSigma1 e + ch e f g + constants.getD t 0 + w block t
    let t2 := bigSigma0 a + maj a b c
    [t1 + t2, a, b, c, d + t1, e, f, g]
  | v, _ => v

def hashBlock (hash : List UInt32) (block : Bytes) : List UInt32 :=
  List.zipWith (· + ·) ((List.range 64).foldl (step block) hash) hash

/-- A one bit, the fewest zeros that leave room in a block for the length, and the length in
bits. -/
def padded (m : Bytes) : Bytes :=
  m ++ 0x80 :: List.replicate ((119 - m.length % 64) % 64) 0 ++ toBytes 8 (8 * m.length)

/-- Block `i` of a message. -/
def blockAt (m : Bytes) (i : Nat) : Bytes := (m.drop (64 * i)).take 64

def hashBlocks (m : Bytes) (n : Nat) : List UInt32 :=
  (List.range n).foldl (fun hash i => hashBlock hash (blockAt m i)) initial

end Standard

open Standard

/-- SHA-256 of a message. -/
def sha256 (m : Bytes) : Bytes :=
  (hashBlocks (padded m) ((padded m).length / 64)).flatMap fun v => toBytes 4 v.toNat

/-! ## Words -/

theorem ror_eq {n : Nat} (pos : 0 < n) (small : n < 32) (x : UInt32) :
    ror x (UInt32.ofNat n) = rotr n x := by
  have right : (UInt32.ofNat n).toNat = n := UInt32.toNat_ofNat_of_lt' (by
    show n < 2 ^ 32
    omega)
  have left : (32 - UInt32.ofNat n).toNat = 32 - n := by
    rw [UInt32.toNat_sub_of_le _ _ (UInt32.le_iff_toNat_le.mpr (by rw [right]; exact small.le)),
      right]
    rfl
  refine UInt32.toBitVec_inj.mp (BitVec.eq_of_toNat_eq ?_)
  show (ror x (UInt32.ofNat n)).toNat = _
  rw [ror, UInt32.toNat_or, UInt32.toNat_shiftRight, UInt32.toNat_shiftLeft, right, left, rotr,
    BitVec.rotateRight_def, BitVec.toNat_or, BitVec.toNat_ushiftRight, BitVec.toNat_shiftLeft,
    Nat.mod_eq_of_lt small, Nat.mod_eq_of_lt (show 32 - n < 32 by omega)]
  rfl

section Sigmas

variable (x : UInt32)

theorem bigSigma0_eq : bigSigma0 x = ror x 2 ^^^ ror x 13 ^^^ ror x 22 := by
  rw [bigSigma0, ← ror_eq (by decide) (by decide), ← ror_eq (by decide) (by decide),
    ← ror_eq (by decide) (by decide)]
  rfl

theorem bigSigma1_eq : bigSigma1 x = ror x 6 ^^^ ror x 11 ^^^ ror x 25 := by
  rw [bigSigma1, ← ror_eq (by decide) (by decide), ← ror_eq (by decide) (by decide),
    ← ror_eq (by decide) (by decide)]
  rfl

theorem sigma0_eq : sigma0 x = ror x 7 ^^^ ror x 18 ^^^ (x >>> 3) := by
  rw [sigma0, ← ror_eq (by decide) (by decide), ← ror_eq (by decide) (by decide)]
  rfl

theorem sigma1_eq : sigma1 x = ror x 17 ^^^ ror x 19 ^^^ (x >>> 10) := by
  rw [sigma1, ← ror_eq (by decide) (by decide), ← ror_eq (by decide) (by decide)]
  rfl

end Sigmas

theorem shift_mod {s : Nat} (small : s ≤ 24) : (UInt32.ofNat s).toNat % 32 = s := by
  rw [UInt32.toNat_ofNat']
  omega

theorem byte_shiftLeft (b : UInt8) {s : Nat} (small : s ≤ 24) :
    (b.toUInt32 <<< UInt32.ofNat s).toNat = b.toNat <<< s := by
  rw [UInt32.toNat_shiftLeft, shift_mod small, UInt8.toNat_toUInt32, Nat.shiftLeft_eq,
    Nat.mod_eq_of_lt]
  calc b.toNat * 2 ^ s < 2 ^ 8 * 2 ^ s := Nat.mul_lt_mul_of_pos_right b.toNat_lt (Nat.two_pow_pos s)
    _ ≤ 2 ^ 8 * 2 ^ 24 := Nat.mul_le_mul_left _ (Nat.pow_le_pow_right (by decide) small)
    _ = 2 ^ 32 := rfl

/-- The bytes of a word do not overlap, so that putting them together by `or` adds them. -/
theorem word_eq (p : Bytes) (t : Nat) :
    word p t = UInt32.ofNat (ofBytes ((List.range 4).map fun j => p.getD (4 * t + j) 0)) := by
  have form : word p t = ((p.getD (4 * t + 0) 0).toUInt32 <<< UInt32.ofNat 24) |||
      ((p.getD (4 * t + 1) 0).toUInt32 <<< UInt32.ofNat 16) |||
      ((p.getD (4 * t + 2) 0).toUInt32 <<< UInt32.ofNat 8) ||| (p.getD (4 * t + 3) 0).toUInt32 :=
      rfl
  refine UInt32.toNat_inj.mp ?_
  rw [form]
  simp only [List.range, List.range.loop, List.map_cons, List.map_nil]
  generalize p.getD (4 * t + 0) 0 = a, p.getD (4 * t + 1) 0 = b, p.getD (4 * t + 2) 0 = c,
    p.getD (4 * t + 3) 0 = d
  have aBound := a.toNat_lt
  have bBound := b.toNat_lt
  have cBound := c.toNat_lt
  have dBound := d.toNat_lt
  rw [UInt32.toNat_or, UInt32.toNat_or, UInt32.toNat_or, byte_shiftLeft a (by decide),
    byte_shiftLeft b (by decide), byte_shiftLeft c (by decide), UInt8.toNat_toUInt32, Nat.or_assoc,
    Nat.or_assoc, ← Nat.shiftLeft_add_eq_or_of_lt dBound,
    ← Nat.shiftLeft_add_eq_or_of_lt (i := 16), ← Nat.shiftLeft_add_eq_or_of_lt (i := 24),
    UInt32.toNat_ofNat']
  all_goals
    simp only [ofBytes, List.foldl_cons, List.foldl_nil, Nat.shiftLeft_eq]
    omega

theorem be32_eq (v : UInt32) : be32 v = toBytes 4 v.toNat := by
  have byte (s : Nat) (small : s ≤ 24) :
      (v >>> UInt32.ofNat s).toUInt8 = UInt8.ofNat (v.toNat / 2 ^ s) := by
    refine UInt8.toNat_inj.mp ?_
    rw [UInt32.toNat_toUInt8, UInt32.toNat_shiftRight, shift_mod small, Nat.shiftRight_eq_div_pow,
      UInt8.toNat_ofNat']
  have last : v.toUInt8 = UInt8.ofNat (v.toNat / 256 ^ 0) := by
    rw [Nat.pow_zero, Nat.div_one]
    rfl
  have form : be32 v = [(v >>> UInt32.ofNat 24).toUInt8, (v >>> UInt32.ofNat 16).toUInt8,
    (v >>> UInt32.ofNat 8).toUInt8, v.toUInt8] := rfl
  rw [form, byte 24 (by decide), byte 16 (by decide), byte 8 (by decide), last]
  rfl

/-! ## One block -/

theorem k_eq : k = constants := by
  decide +kernel

theorem schedule_eq (p : Bytes) : schedule p = (List.range (16 + 48)).map (w p) := by
  unfold schedule
  generalize 48 = count
  induction count with
  | zero =>
    refine List.map_congr_left fun t small => ?_
    rw [w, if_pos (List.mem_range.mp small), word_eq]
  | succ count ih =>
    have read : ∀ j, 0 < j → j ≤ 16 → ((List.range (16 + count)).map (w p)).getD
        (16 + count - j) 0 = w p (16 + count - j) := fun j pos small => by
      rw [List.getD_eq_getElem?_getD, List.getElem?_map, List.getElem?_range (by omega)]
      rfl
    have next : w p (16 + count) = _ := w.eq_1 p (16 + count)
    rw [if_neg (by omega)] at next
    rw [forRange_succ, ih, ← Nat.add_assoc, List.range_succ, List.map_append]
    rw [List.map_singleton, next, sigma0_eq, sigma1_eq, ← read 2, ← read 7, ← read 15, ← read 16]
    · dsimp only
      ac_rfl
    all_goals omega

theorem schedule_getD (p : Bytes) {t : Nat} (bound : t < 64) : (schedule p).getD t 0 = w p t := by
  rw [schedule_eq, List.getD_eq_getElem?_getD, List.getElem?_map, List.getElem?_range bound]
  rfl

theorem round_eq (p : Bytes) (v : Vector UInt32 8) {t : Nat} (bound : t < 64) :
    (round (schedule p) v t).toList = step p v.toList t := by
  obtain ⟨⟨v⟩, size⟩ := v
  match v, size with
  | [a, b, c, d, e, f, g, h], _ =>
    simp only [round, step, schedule_getD p bound, k_eq, bigSigma0_eq, bigSigma1_eq]
    rfl

theorem chunk_eq (h : Vector UInt32 8) (p : Bytes) : (chunk h p).toList = hashBlock h.toList p := by
  have loop : ∀ count ≤ 64, (forRange 0 count (round (schedule p)) h).toList =
      (List.range count).foldl (step p) h.toList := fun count bound => by
    induction count with
    | zero => rfl
    | succ count ih =>
      rw [forRange_succ, List.range_succ, List.foldl_append, ← ih (by omega), Nat.zero_add,
        round_eq p _ (by omega)]
      rfl
  rw [chunk, hashBlock, ← loop 64 le_rfl, Vector.toList_zipWith, List.zipWith_comm]
  simp only [UInt32.add_comm]

/-! ## Pieces -/

/-- What the code holds when it was fed `m`: the hash of its whole blocks, and the bytes after. -/
structure Fed (s : State) (m : Bytes) : Prop where
  hash : s.h.toList = hashBlocks m (m.length / 64)
  buf : s.buf = m.drop (64 * (m.length / 64))

theorem init_fed : Fed init [] :=
  ⟨by decide +kernel, rfl⟩

theorem hashBlocks_succ (m : Bytes) (n : Nat) :
    hashBlocks m (n + 1) = hashBlock (hashBlocks m n) (blockAt m n) := by
  rw [hashBlocks, List.range_succ, List.foldl_append]
  rfl

theorem hashBlocks_append {m : Bytes} {n : Nat} (whole : 64 * n ≤ m.length) (more : Bytes) :
    hashBlocks (m ++ more) n = hashBlocks m n := by
  unfold hashBlocks
  refine List.foldl_ext _ _ _ fun hash i member => ?_
  have bound := List.mem_range.mp member
  rw [blockAt, blockAt, List.drop_append_of_le_length (by omega), List.take_append_of_le_length]
  rw [List.length_drop]
  omega

/-- Bytes up to the end of a block. -/
theorem Fed.fill {s : State} {m data : Bytes} (h : Fed s m)
    (room : s.buf.length + data.length ≤ 64) (some_ : data ≠ []) :
    Fed (if (s.buf ++ data).length = 64 then
        { s with h := chunk s.h (s.buf ++ data), buf := [] } else { s with buf := s.buf ++ data })
      (m ++ data) := by
  have length : s.buf.length = m.length % 64 := by
    rw [h.buf, List.length_drop]
    omega
  have pos := List.length_pos_of_ne_nil some_
  rw [List.length_append]
  split
  next full =>
    have blocks : (m ++ data).length / 64 = m.length / 64 + 1 := by
      rw [List.length_append]
      omega
    have last : blockAt (m ++ data) (m.length / 64) = s.buf ++ data := by
      rw [blockAt, List.drop_append_of_le_length (by omega), ← h.buf, List.take_of_length_le]
      rw [List.length_append]
      omega
    refine ⟨?_, ?_⟩
    · rw [chunk_eq, h.hash, blocks, hashBlocks_succ, hashBlocks_append (by omega), last]
    · rw [blocks]
      refine (List.drop_eq_nil_of_le ?_).symm
      rw [List.length_append]
      omega
  next short =>
    have blocks : (m ++ data).length / 64 = m.length / 64 := by
      rw [List.length_append]
      omega
    refine ⟨?_, ?_⟩
    · rw [blocks, hashBlocks_append (by omega)]
      exact h.hash
    · rw [blocks, List.drop_append_of_le_length (by omega), ← h.buf]

theorem Fed.absorb : ∀ {fuel : Nat} {s : State} {m data : Bytes}, Fed s m → data.length ≤ fuel →
    Fed (absorb fuel data s) (m ++ data)
  | 0, s, m, data, h, short => by
    rw [List.eq_nil_of_length_eq_zero (Nat.le_zero.mp short), List.append_nil]
    exact h
  | fuel + 1, s, m, data, h, short => by
    unfold Sha256.absorb
    split
    next empty =>
      rw [List.isEmpty_iff.mp empty, List.append_nil]
      exact h
    next some_ =>
      have length : s.buf.length < 64 := by
        rw [h.buf, List.length_drop]
        omega
      have pos : 0 < data.length := List.length_pos_iff.mpr (by simpa using some_)
      have filled := @Fed.fill s m (data.take (min (64 - s.buf.length) data.length)) h
        (by rw [List.length_take]; omega) (List.ne_nil_of_length_pos (by
          rw [List.length_take]
          omega))
      have rest := @Fed.absorb fuel _ _ (data.drop (min (64 - s.buf.length) data.length))
        filled (by rw [List.length_drop]; omega)
      rwa [List.append_assoc, List.take_append_drop] at rest

theorem Fed.update {s : State} {m : Bytes} (h : Fed s m) (data : Bytes) :
    Fed (update s data) (m ++ data) :=
  absorb ⟨h.hash, h.buf⟩ le_rfl

/-! ## The padding and the digest -/

theorem Fed.pad : ∀ (zeros fuel : Nat) {s : State} {m : Bytes}, Fed s m → zeros < 64 →
    (m.length + zeros) % 64 = 56 → zeros ≤ fuel →
    Fed (pad fuel s) (m ++ List.replicate zeros 0)
  | 0, fuel, s, m, h, _, full, _ => by
    have length : s.buf.length = 56 := by
      rw [h.buf, List.length_drop]
      omega
    rw [List.replicate_zero, List.append_nil]
    cases fuel with
    | zero => exact h
    | succ fuel =>
      rw [Sha256.pad, if_pos length]
      exact h
  | zeros + 1, fuel + 1, s, m, h, few, full, enough => by
    have length : s.buf.length ≠ 56 := by
      rw [h.buf, List.length_drop]
      omega
    have fed := h.update [0]
    have rest := @Fed.pad zeros fuel
      { Sha256.update s [0] with len := (Sha256.update s [0]).len - 1 } (m ++ [0])
      ⟨fed.hash, fed.buf⟩ (by omega) (by
        rw [List.length_append, List.length_singleton]
        omega) (by omega)
    rw [Sha256.pad, if_neg length]
    rwa [List.append_assoc, List.singleton_append, ← List.replicate_succ] at rest

theorem update_len (s : State) (data : Bytes) :
    (update s data).len = s.len + UInt64.ofNat data.length := by
  have kept : ∀ (fuel : Nat) (data : Bytes) (s : State), (absorb fuel data s).len = s.len := by
    intro fuel
    induction fuel with
    | zero => exact fun _ _ => rfl
    | succ fuel ih =>
      intro data s
      unfold absorb
      split
      · rfl
      · dsimp only
        rw [ih]
        split <;> rfl
  exact kept _ _ _

theorem updates_fed (inputs : List Bytes) : Fed (inputs.foldl update init) inputs.flatten ∧
      (inputs.foldl update init).len = UInt64.ofNat inputs.flatten.length := by
  induction inputs using List.reverseRecOn with
  | nil => exact ⟨init_fed, rfl⟩
  | append_singleton inputs data ih =>
    rw [List.foldl_append, List.flatten_append, List.flatten_singleton]
    refine ⟨ih.1.update data, ?_⟩
    rw [List.foldl_cons, List.foldl_nil, update_len, ih.2, List.length_append, UInt64.ofNat_add]

theorem lengthBytes_eq {n : Nat} (small : n < 2 ^ 61) :
    ((List.range 8).map fun i => ((UInt64.ofNat n * 8) >>> UInt64.ofNat (56 - 8 * i)).toUInt8) =
      toBytes 8 (8 * n) := by
  refine List.map_congr_left fun i bound => UInt8.toNat_inj.mp ?_
  have byte : i < 8 := List.mem_range.mp bound
  have power : 256 ^ (8 - 1 - i) = 2 ^ (56 - 8 * i) := by
    rw [show 56 - 8 * i = 8 * (7 - i) by omega, Nat.pow_mul]
  have bits : (UInt64.ofNat n * 8).toNat = 8 * n := by
    rw [UInt64.toNat_mul, UInt64.toNat_ofNat']
    simp only [UInt64.reduceToNat]
    omega
  rw [UInt64.toNat_toUInt8, UInt64.toNat_shiftRight, bits, UInt64.toNat_ofNat', UInt8.toNat_ofNat',
    power, Nat.shiftRight_eq_div_pow]
  congr 3
  omega

/-- The digest of a message is the standard's, however the message was cut. -/
theorem digest_eq (inputs : List Bytes) (short : inputs.flatten.length < 2 ^ 61) :
    digest inputs = sha256 inputs.flatten := by
  obtain ⟨fed, len⟩ := updates_fed inputs
  unfold digest final
  dsimp only
  rw [len, lengthBytes_eq short]
  generalize inputs.foldl update init = s at fed
  generalize inputs.flatten = m at fed
  have padding := (fed.update [0x80]).pad ((119 - m.length % 64) % 64) 64 (by omega)
    (by rw [List.length_append, List.length_singleton]; omega) (by omega)
  have ended := @Fed.update { pad 64 (update s [0x80]) with
    len := (pad 64 (update s [0x80])).len - 8 } _ ⟨padding.hash, padding.buf⟩
    (toBytes 8 (8 * m.length))
  rw [ended.hash, List.append_assoc m, funext be32_eq]
  rfl

theorem digest_eq_abc : digest [[0x61], [], [0x62, 0x63]] = sha256 [0x61, 0x62, 0x63] :=
  digest_eq [[0x61], [], [0x62, 0x63]] (by decide)

end MiniBox.Sha256
