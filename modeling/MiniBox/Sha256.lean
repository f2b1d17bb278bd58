import MiniBox.Lib.Bytes
import MiniBox.Lib.Loop

/-!
# The hash

`sha256.c` as it computes: a state of eight words, the bytes waiting for a whole
chunk of 64, and the length fed so far.  Nothing proved about a block depends on
what the hash is; a digest is 32 bytes, and that is all the state format uses.
-/

namespace MiniBox

open Lib

namespace Sha256

/-- `mb_sha256`; `fill` is the length of `buf`. -/
structure State where
  h : Vector UInt32 8
  len : UInt64
  buf : Bytes

def ror (v s : UInt32) : UInt32 := (v >>> s) ||| (v <<< (32 - s))

def k : List UInt32 :=
  [0x428a2f98, 0x71374491, 0xb5c0fbcf, 0xe9b5dba5, 0x3956c25b, 0x59f111f1, 0x923f82a4, 0xab1c5ed5,
   0xd807aa98, 0x12835b01, 0x243185be, 0x550c7dc3, 0x72be5d74, 0x80deb1fe, 0x9bdc06a7, 0xc19bf174,
   0xe49b69c1, 0xefbe4786, 0x0fc19dc6, 0x240ca1cc, 0x2de92c6f, 0x4a7484aa, 0x5cb0a9dc, 0x76f988da,
   0x983e5152, 0xa831c66d, 0xb00327c8, 0xbf597fc7, 0xc6e00bf3, 0xd5a79147, 0x06ca6351, 0x14292967,
   0x27b70a85, 0x2e1b2138, 0x4d2c6dfc, 0x53380d13, 0x650a7354, 0x766a0abb, 0x81c2c92e, 0x92722c85,
   0xa2bfe8a1, 0xa81a664b, 0xc24b8b70, 0xc76c51a3, 0xd192e819, 0xd6990624, 0xf40e3585, 0x106aa070,
   0x19a4c116, 0x1e376c08, 0x2748774c, 0x34b0bcb5, 0x391c0cb3, 0x4ed8aa4a, 0x5b9cca4f, 0x682e6ff3,
   0x748f82ee, 0x78a5636f, 0x84c87814, 0x8cc70208, 0x90befffa, 0xa4506ceb, 0xbef9a3f7, 0xc67178f2]

/-- The word at byte `4 * i` of a chunk, most significant byte first. -/
def word (p : Bytes) (i : Nat) : UInt32 :=
  let byte (j : Nat) : UInt32 := (p.getD (4 * i + j) 0).toUInt32
  (byte 0 <<< 24) ||| (byte 1 <<< 16) ||| (byte 2 <<< 8) ||| byte 3

/-- The 64 words a chunk is expanded to. -/
def schedule (p : Bytes) : List UInt32 :=
  forRange 16 48
    (fun w i =>
      let at_ (j : Nat) : UInt32 := w.getD (i - j) 0
      let s0 := ror (at_ 15) 7 ^^^ ror (at_ 15) 18 ^^^ (at_ 15 >>> 3)
      let s1 := ror (at_ 2) 17 ^^^ ror (at_ 2) 19 ^^^ (at_ 2 >>> 10)
      w ++ [at_ 16 + s0 + at_ 7 + s1])
    ((List.range 16).map (word p))

/-- One of the 64 rounds on the working words `a` to `h`. -/
def round (w : List UInt32) (v : Vector UInt32 8) (i : Nat) : Vector UInt32 8 :=
  let a := v[0]; let b := v[1]; let c := v[2]; let d := v[3]
  let e := v[4]; let f := v[5]; let g := v[6]; let h := v[7]
  let bigS1 := ror e 6 ^^^ ror e 11 ^^^ ror e 25
  let ch := (e &&& f) ^^^ (~~~e &&& g)
  let t1 := h + bigS1 + ch + k.getD i 0 + w.getD i 0
  let bigS0 := ror a 2 ^^^ ror a 13 ^^^ ror a 22
  let maj := (a &&& b) ^^^ (a &&& c) ^^^ (b &&& c)
  let t2 := bigS0 + maj
  #v[t1 + t2, a, b, c, d + t1, e, f, g]

/-- `block`: one whole chunk. -/
def chunk (h : Vector UInt32 8) (p : Bytes) : Vector UInt32 8 :=
  Vector.zipWith (· + ·) h (forRange 0 64 (round (schedule p)) h)

def init : State :=
  { h := #v[0x6a09e667, 0xbb67ae85, 0x3c6ef372, 0xa54ff53a,
            0x510e527f, 0x9b05688c, 0x1f83d9ab, 0x5be0cd19]
    len := 0
    buf := [] }

/-- The loop of `mb_sha256_update`: fill the buffer, and take it in when it is a
whole chunk. -/
def absorb : (fuel : Nat) → Bytes → State → State
  | 0, _, s => s
  | fuel + 1, data, s =>
    if data.isEmpty then s
    else
      let take := min (64 - s.buf.length) data.length
      let buf := s.buf ++ data.take take
      let s := if buf.length = 64 then { s with h := chunk s.h buf, buf := [] }
        else { s with buf }
      absorb fuel (data.drop take) s

def update (s : State) (data : Bytes) : State :=
  absorb data.length data { s with len := s.len + UInt64.ofNat data.length }

/-- The zeros up to byte 56 of a chunk; at most 63 of them are needed. -/
def pad : (fuel : Nat) → State → State
  | 0, s => s
  | fuel + 1, s =>
    if s.buf.length = 56 then s
    else
      let s := update s [0]
      pad fuel { s with len := s.len - 1 }

def be32 (v : UInt32) : Bytes :=
  [(v >>> 24).toUInt8, (v >>> 16).toUInt8, (v >>> 8).toUInt8, v.toUInt8]

def final (s : State) : Bytes :=
  let bits := s.len * 8
  let s := pad 64 (update s [0x80])
  let lenb := (List.range 8).map fun i => (bits >>> UInt64.ofNat (56 - 8 * i)).toUInt8
  let s := update { s with len := s.len - 8 } lenb
  s.h.toList.flatMap be32

theorem final_length (s : State) : (final s).length = 32 := by
  simp [final, List.length_flatMap, be32]

/-- The digest of inputs fed one after the other. -/
def digest (inputs : List Bytes) : Bytes := final (inputs.foldl update init)

theorem digest_length (inputs : List Bytes) : (digest inputs).length = 32 := final_length _

end Sha256

end MiniBox
