import MiniBox.Block.Session
import MiniBox.Host.ThreadCalls
import MiniBox.Threads.Stream

/-!
# The guest's memory, as host code follows it

Host code is handed addresses by the guest and follows them.  `Guest` is the memory it
follows them in: the block, the layout that says which addresses are the guest's, and, for
the proofs, a record of every access host code made with the block as it was at that moment
(`Touch`).  Nothing reads the record.

`guestCan` is the question asked before an access.  What it is to answer is said apart from
it: `Block.Permits`, every byte inside the block and in a page whose status lets it be read
or written.
-/

namespace MiniBox

open Lib

/-! ## What a status permits -/

def Prot.readable : Prot → Bool
  | .none => false
  | .r | .rw | .rx | .rwx | .rwStack => true

/-- Whether a page of this status may be written, or read. -/
def statusPermits (write : Bool) (s : UInt8) : Bool :=
  if write then (statusProt s).writable else (statusProt s).readable

/-- The byte at address `x` is in a page of the block that may be read, or written. -/
structure Block.PermitsByte (b : Block) (x : Nat) (write : Bool) : Prop where
  word : x < 2 ^ 64
  above : b.addr.start.toNat ≤ x
  below : x < b.addr.start.toNat + b.addr.size.toNat
  status : statusPermits write (b.page ((x - b.addr.start.toNat) / pageSize)).status = true

/-- Every byte of the range may be read, or written. -/
def Block.Permits (b : Block) (addr len : UInt64) (write : Bool) : Prop :=
  ∀ k < len.toNat, b.PermitsByte (addr.toNat + k) write

/-! ## Bytes of the block -/

def Block.byteAt (b : Block) (x : UInt64) : UInt8 :=
  let off := (x - b.addr.start).toNat
  (b.page (off / pageSize)).mem.val.getD (off % pageSize) 0

def Block.bytesAt (b : Block) (addr : UInt64) (len : Nat) : Bytes :=
  (List.range len).map fun k => b.byteAt (addr + UInt64.ofNat k)

/-- Host code stores bytes at an address of the guest: as a guest's own store does, page by
page, a page that is mapped read-only being opened by the fault handler. -/
def Block.storeBytes (b : Block) (addr : UInt64) (bs : Bytes) : Block :=
  if bs = [] then b
  else
    let off := (addr - b.addr.start).toNat
    let first := off / pageSize
    let last := (off + bs.length - 1) / pageSize
    forRange first (last + 1 - first)
      (fun b i => b.guestWrite i ((b.page i).mem.patch bs off i)) b

/-! ## Addresses -/

def Range.contains (r : Range) (a : UInt64) : Bool := decide (r.start ≤ a) && decide (a < r.finish)

/-- `mb_layout`. -/
structure Layout where
  elf : Range
  mainThread : Range
  altThread : Range
  sbrk : Range
  sealed_ : Range
  invis : Range
  plain : Range
  mmapArena : Range
  deriving DecidableEq

/-- `mb_layout_all`. -/
def Layout.all (l : Layout) : Range := ⟨l.elf.start, l.mmapArena.finish - l.elf.start⟩

/-- One access of host code to the guest's bytes. -/
structure Touch where
  /-- the block at that moment -/
  block : Block
  addr : UInt64
  len : UInt64
  write : Bool
  /-- made for a report to the host's log, not for the guest -/
  report : Bool := false

structure Guest where
  block : Block
  layout : Layout
  /-- the guest's own fault handler, 0 for none -/
  faultRaw : UInt64 := 0
  touched : List Touch := []

/-- `mb_block_host_can`. -/
def Block.hostCan (b : Block) (addr len : UInt64) (write guestAsks : Bool) : Bool :=
  if len = 0 then true
  else if addr < b.addr.start ∨ b.addr.size ≤ addr - b.addr.start ∨
      b.addr.size - (addr - b.addr.start) < len then false
  else
    let first := ((addr - b.addr.start) >>> 12).toNat
    let last := ((addr - b.addr.start + len - 1) >>> 12).toNat
    allPages first (last + 1 - first) fun i =>
      let s := (b.page i).status
      let can := if write then s == stRW || s == stRWX || s == stRWStack
        else s == stR || s == stRW || s == stRX || s == stRWX || s == stRWStack
      s != stFree && (can || guestAsks)

namespace Guest

variable (g : Guest)

def owns (addr len : UInt64) : Bool :=
  if addr = 0 ∨ len = 0 then false
  else
    let all := g.layout.all
    if addr < all.start ∨ all.finish ≤ addr then false else decide (len ≤ all.finish - addr)

/-- `guest_can`. -/
def guestCan (addr len : UInt64) (write : Bool) : Bool :=
  if len = 0 then true else g.owns addr len && g.block.hostCan addr len write (g.faultRaw != 0)

/-! ## Accesses -/

def touch (addr len : UInt64) (write : Bool) : Guest :=
  { g with touched := ⟨g.block, addr, len, write, false⟩ :: g.touched }

/-- `len` bytes read for the guest. -/
def load (addr len : UInt64) : Bytes × Guest :=
  (g.block.bytesAt addr len.toNat, g.touch addr len false)

/-- Bytes written for the guest. -/
def store (addr : UInt64) (bs : Bytes) : Guest :=
  { g.touch addr (UInt64.ofNat bs.length) true with block := g.block.storeBytes addr bs }

/-- The scan of `guest_str`, `n` bytes in: whether it came to the terminator, and after how
many bytes it stopped.  Each page is asked before its first byte is read. -/
def scan (addr finish : UInt64) : (fuel n : Nat) → Bool × Nat
  | 0, n => (false, n)
  | fuel + 1, n =>
    let p := addr + UInt64.ofNat n
    if finish ≤ p then (false, n)
    else if (n = 0 ∨ p &&& 0xfff = 0) ∧ !g.guestCan p 1 false then (false, n)
    else if g.block.byteAt p = 0 then (true, n)
    else scan addr finish fuel (n + 1)

/-- `guest_str`: the string at an address, if all of it may be read.  Whoever asked reads
it again, terminator included, while nothing changes. -/
def str (addr : UInt64) : Option Bytes × Guest :=
  if !g.owns addr 1 then (none, g)
  else
    let finish := g.layout.all.finish
    match g.scan addr finish (finish - addr).toNat 0 with
    | (true, n) => (some (g.block.bytesAt addr n), g.touch addr (UInt64.ofNat (n + 1)) false)
    | (false, n) => (none, g.touch addr (UInt64.ofNat n) false)

end Guest

instance : GuestAccess Guest where
  read32 g addr :=
    let (bs, g) := g.load addr 4
    (UInt32.ofNat (leVal bs), g)
  read64 g addr :=
    let (bs, g) := g.load addr 8
    (UInt64.ofNat (leVal bs), g)
  write32 g addr v := g.store addr (encode32 v)
  write64 g addr v := g.store addr (encode64 v)
  protectStack g r :=
    let (answer, block) := g.block.mprotect r .rwStack
    (answer, { g with block })
  can := Guest.guestCan
  munmap g r := { g with block := (g.block.munmap r).2 }

end MiniBox
