import MiniBox.Block.Epoch
import MiniBox.Sha256

/-!
# Seal, savestates and planned states

The seal makes the live image the baseline: every dirty visible page becomes
clean, and the block is named by a hash of its address and of what kind of
baseline each page has.

A savestate is the magic, the hash, the address range, the two packed maps and
the bytes of every dirty visible page, in page order.  A planned state writes the
part before the page data at once, holds the pages it owes, and copies each of
them when a background copier, the fault handler or a host write gets there
first.  Loading a state finishes an open plan, gives up the epoch, checks that
the stream is of this machine and then walks the pages, changing only those that
differ; it closes the open run of protections on every way out.
-/

namespace MiniBox

open Lib

/-! ## The seal -/

def Range.bytes (r : Range) : Bytes := le 8 r.start.toNat ++ le 8 r.size.toNat

/-- A dirty visible page becomes its own baseline, a zero baseline if it reads
zero. -/
def sealPage (x : Track) : Track :=
  if x.page.dirty && !x.page.invisible then
    let x := setDirty false (pageCool x)
    { x with page := { x.page with snap := if x.page.mem = .zero then .zero else .none } }
  else x

/-- What a page's baseline adds to the hash. -/
def Page.sealTag (p : Page) : Bytes :=
  match p.snap with
  | .none => le 4 1
  | .zero => le 4 2
  | .data bytes => if p.status = stRWStack then le 4 1 else bytes.val

/-- Everything the seal feeds to the hash, in order. -/
def Block.sealInputs (b : Block) : List Bytes :=
  b.addr.bytes :: (List.range b.npages).map fun i => (b.page i).sealTag

def Block.sealNow (b : Block) : Except Errno Unit × Block :=
  if b.isSealed then (.error .einval, b)
  else
    let b := b.epochClear
    let b := b.onPages 0 b.npages fun _ => sealPage
    let b := b.refreshAll
    (.ok (), { b with isSealed := true, hash := Sha256.digest b.sealInputs })

/-! ## Savestates -/

/-- `MAGIC`: "ActivatedMemoryBlock". -/
def stateMagic : Bytes :=
  [0x41, 0x63, 0x74, 0x69, 0x76, 0x61, 0x74, 0x65, 0x64, 0x4d,
   0x65, 0x6d, 0x6f, 0x72, 0x79, 0x42, 0x6c, 0x6f, 0x63, 0x6b]

def Block.statusBytes (b : Block) : Bytes := (List.range b.npages).map fun i => (b.page i).statusMap

def Block.dirtyBytes (b : Block) : Bytes :=
  (List.range b.npages).map fun i => if (b.page i).dirtyMap then 1 else 0

/-- What stands before the page data. -/
def Block.stateHeader (b : Block) : Bytes :=
  stateMagic ++ b.hash ++ b.addr.bytes ++ b.statusBytes ++ b.dirtyBytes

/-- The pages a savestate carries. -/
def Block.savedPages (b : Block) : List Nat :=
  (List.range b.npages).filter fun i => !(b.page i).invisible && (b.page i).dirty

def Block.saveState (b : Block) : Except Errno Bytes :=
  if !b.isSealed then .error .einval
  else .ok (b.stateHeader ++ b.savedPages.flatMap fun i => (b.page i).mem.val)

/-- The pages `next_state_page` finds: through the dirty map, where a savestate
asks the page records. -/
def Block.statePages (b : Block) : List Nat :=
  (List.range b.npages).filter fun i => (b.page i).dirtyMap && !(b.page i).invisible

def Control.stateHeaderSize (b : Control) : Nat := 20 + 32 + 16 + b.npages * 2

def Block.stateSize (b : Block) : Nat :=
  if !b.isSealed then 0 else b.stateHeaderSize + b.statePages.length * pageSize

/-! ## Planned states -/

/-- `plan_can_hold`: a page the guest may write can be held until it is
copied. -/
def Page.planCanHold (p : Page) : Bool := statusTracked p.status

/-- Page `i` enters the plan at `slot`.  One that cannot be held is copied on the
spot; any other is owed, and held unless it is hot. -/
def planPage (i slot : Nat) (x : Track) : Track :=
  let x := { x with page := { x.page with planSlot := UInt32.ofNat slot } }
  if !x.page.planCanHold then
    planCopyPage i x
  else { x with page := { x.page with planHold := .owed, held := x.page.held || !x.page.hot } }

/-- `mb_block_state_plan_within` on a buffer of `capacity` bytes: where page data
starts, or 0.  `dest` is the buffer from there on, page by page. -/
def Block.statePlan (b : Block) (dest : Option (Nat → PageBytes)) (capacity : Nat) : Nat × Block :=
  match dest with
  | none => (0, b)
  | some room =>
    if !b.isSealed || b.planActive then (0, b)
    else if b.stateHeaderSize + b.statePages.length * pageSize > capacity then (0, b)
    else
      let list := b.statePages
      let b :=
        { b with
          plan := some { head := b.stateHeader, room, list }
          shared := { b.shared with copies := [] } }
      let s := list.zipIdx.foldl
        (fun (s : Pending) (entry : Nat × Nat) =>
          let held := (s.block.page entry.1).planCanHold
          let s := s.onPage entry.1 (planPage entry.1 entry.2)
          if held then s.note entry.1 else s)
        { block := b }
      (b.stateHeaderSize, s.close)

/-- `plan_fill`: pages `[from, past)` of the plan, those nobody has taken yet;
how many it copied. -/
def Block.planFill (b : Block) (first past : Nat) : Nat × Block :=
  match b.plan with
  | none => (0, b)
  | some plan =>
    ((plan.list.take past).drop first).foldl
      (fun (done : Nat × Block) i =>
        (if (done.2.page i).planHold = .owed then done.1 + 1 else done.1,
          done.2.onPage i (planTake false i)))
      (0, b)

/-- Every page the plan still owes, copied. -/
def Block.planDrain (b : Block) : Block :=
  match b.plan with
  | none => b
  | some plan => plan.list.foldl (fun b i => b.onPage i (planTake true i)) b

/-- The page-sized slots of the buffer, after the copies made into it. -/
def Plan.slots (plan : Plan) (copies : List Copy) : Nat → PageBytes :=
  copies.foldl (fun slots copy => Function.update slots copy.slot.toNat copy.bytes) plan.room

/-- The caller's buffer: what stands before the page data, then the slots. -/
def Plan.buffer (plan : Plan) (copies : List Copy) : Bytes :=
  plan.head ++ (List.range plan.list.length).flatMap fun k => (plan.slots copies k).val

/-- `plan_finish_impl`: the buffer as the caller has it back, and the block with
the holds let go. -/
def Block.planFinish (b : Block) : Except Errno Bytes × Block :=
  match b.plan with
  | none => (.error .einval, b)
  | some plan =>
    let b := b.planDrain
    let s := plan.list.foldl Pending.note { block := { b with plan := none } }
    (.ok (plan.buffer b.shared.copies), s.close)

/-! ## Loading a state -/

/-- A load under way: the block with its open run, and the stream. -/
@[ext]
structure Load where
  pending : Pending
  rest : Bytes

def Load.block (l : Load) : Block := l.pending.block

def Load.onPage (l : Load) (i : Nat) (f : Track → Track) : Load :=
  { l with pending := l.pending.onPage i f }

/-- A page's bytes from the stream, or what arrived of them before it ended. -/
def readPage (old : PageBytes) (stream : Bytes) : PageBytes × Option Bytes :=
  if h : pageSize ≤ stream.length then
    (⟨stream.take pageSize, by simpa using h⟩, some (stream.drop pageSize))
  else
    (⟨fillFrom stream old.val, by
        have whole := old.property
        rw [fillFrom_length (by omega), whole]⟩, none)

/-- The page's bytes are `bytes`. -/
def setMem (bytes : PageBytes) (x : Track) : Track :=
    { x with page := { x.page with mem := bytes } }

/-- A hot page just rewritten keeps its shadow true. -/
def shadowRewritten (x : Track) : Track :=
  if x.page.hot then { x with page := { x.page with shadow := some x.page.mem } } else x

/-- The bytes and the dirty flag of visible page `i`, as the state has them. -/
def Load.visiblePage (l : Load) (i : Nat) (newDirty : Bool) : Load × Option Errno :=
  let p := l.block.page i
  match p.dirty, newDirty with
  | false, true =>
    let l := l.onPage i maybeSnapshot
    match readPage p.mem l.rest with
    | (bytes, none) => (l.onPage i fun x => setDirty true (setMem bytes x), some .eio)
    | (bytes, some rest) =>
      ({ l.onPage i fun x => shadowRewritten (setDirty true (setMem bytes x)) with rest }, none)
  | true, false =>
    match p.snap with
    | .zero => (l.onPage i fun x => setDirty false (setMem .zero x), none)
    | .data bytes => (l.onPage i fun x => setDirty false (setMem bytes x), none)
    | .none => (l, some .einval)
  | true, true =>
    match readPage p.mem l.rest with
    | (bytes, none) => (l.onPage i (setMem bytes), some .eio)
    | (bytes, some rest) =>
      ({ l.onPage i fun x => shadowRewritten (setDirty true (setMem bytes x)) with rest }, none)
  | false, false => (l.onPage i (setDirty false), none)

/-- Page `i` is noted if its protection is not `before` any more. -/
def Load.noteChange (l : Load) (i : Nat) (before : Prot) : Load :=
  if (l.block.page i).nativeProt ≠ before then { l with pending := l.pending.note i } else l

/-- Page `i` of a load, from the state's status and dirty byte for it. -/
def Load.page (statii dirtii : Nat → UInt8) (l : Load) (i : Nat) : Load × Option Errno :=
  let p := l.block.page i
  if dirtii i = 0 ∧ p.dirtyMap = false ∧ statii i = p.statusMap then (l, none)
  else
    let before := p.nativeProt
    match (if p.invisible then (l, none) else l.visiblePage i (dirtii i != 0)) with
    | (l, some reason) => (l, some reason)
    | (l, none) => ((l.onPage i (noteStatus i (statii i))).noteChange i before, none)

/-- The checks a stream passes before anything changes: this machine's magic,
hash and addresses, and its two maps. -/
def Block.readHeader (b : Block) (stream : Bytes) : Except Errno (Bytes × Bytes × Bytes) := do
  let some (magic, stream) := rd 20 stream | .error .eio
  if magic ≠ stateMagic then .error .einval
  let some (hash, stream) := rd 32 stream | .error .eio
  if hash ≠ b.hash then .error .einval
  let some (addr, stream) := rd 16 stream | .error .eio
  if addr ≠ b.addr.bytes then .error .einval
  let some (statii, stream) := rd b.npages stream | .error .eio
  let some (dirtii, stream) := rd b.npages stream | .error .eio
  .ok (statii, dirtii, stream)

/-- The machine a load starts from: the plan finished and the epoch given up. -/
def Block.loadPrologue (b : Block) : Block :=
  let b := { b with loadTouched := false }
  (if b.planActive then b.planFinish.2 else b).epochClear

/-- `mb_block_load_state`: what is left of the stream, or why it was refused, and
the block. -/
def Block.loadState (b : Block) (stream : Bytes) : Except Errno Bytes × Block :=
  if !b.isSealed then (.error .einval, b)
  else
    let b := b.loadPrologue
    match b.readHeader stream with
    | .error e => (.error e, b)
    | .ok (statii, dirtii, rest) =>
      let b := { b with loadTouched := true }
      let ended := untilStop (Load.page (statii.getD · 0) (dirtii.getD · 0)) b.npages 0
        { pending := { block := b }, rest }
      (match ended.2 with
        | none => .ok ended.1.rest
        | some reason => .error reason,
        ended.1.pending.close)

end MiniBox
