import MiniBox.Block.State
import MiniBox.Lib.Merge

/-!
# Deltas

A delta is what one epoch changed: the pages whose allocation changed with their
new status, and the pages written with their new bytes.  Both lists ascend by
page, and each stands behind its count.  A data entry's index carries a flag in
its top bit, set when the page ended the epoch clean.

`deltaApply` applies a delta as its bytes arrive.  Composing two deltas merges
their lists, the later entry winning; one composer reads streams into arrays
(`deltaCompose`), the other walks buffers in place, an entry every few bytes
(`deltaComposeMem`).  Each counts its lists before it writes them, in loops of
its own; `fuel` bounds a loop by the entries there are.
-/

namespace MiniBox

open Lib

/-! ## The format -/

/-- `DELTA_MAGIC`: "MiniBoxDelta1". -/
def deltaMagic : Bytes :=
  [0x4d, 0x69, 0x6e, 0x69, 0x42, 0x6f, 0x78, 0x44, 0x65, 0x6c, 0x74, 0x61, 0x31]

/-- `DELTA_IDX_CLEAN`: the page was given back and is clean. -/
def deltaIdxClean : Nat := 2 ^ 63

/-- The page of a data entry's index. -/
def deltaPage (idx : Nat) : Nat := idx % deltaIdxClean

/-- An entry of the status list. -/
structure StatusEntry where
  idx : Nat
  status : UInt8
  deriving DecidableEq

/-- An entry of the data list, its index with the flag. -/
structure DataEntry where
  idx : Nat
  bytes : PageBytes
  deriving DecidableEq

def StatusEntry.encode (e : StatusEntry) : Bytes := le 8 e.idx ++ [e.status]

def DataEntry.encode (e : DataEntry) : Bytes := le 8 e.idx ++ e.bytes.val

/-- `delta_page` of a status entry's index: what both composers count by. -/
def StatusEntry.page (e : StatusEntry) : Nat := deltaPage e.idx

/-- `delta_page` of an entry's index, as both composers compare. -/
def DataEntry.page (e : DataEntry) : Nat := deltaPage e.idx

def DataEntry.clean (e : DataEntry) : Bool := decide (deltaIdxClean ≤ e.idx)

/-- A delta's bytes, its counts given. -/
def encodeDelta (npages nstatus ndata : Nat) (status : List StatusEntry) (data : List DataEntry) :
    Bytes :=
  deltaMagic ++ le 8 npages ++ le 8 nstatus ++ status.flatMap StatusEntry.encode ++
    le 8 ndata ++ data.flatMap DataEntry.encode

/-! ## Saving -/

/-- The pages whose allocation changed in the epoch. -/
def Block.statEntries (b : Block) : List StatusEntry :=
  ((List.range b.npages).filter fun i => (b.page i).statBit).map fun i => ⟨i, (b.page i).status⟩

/-- The pages written in the epoch. -/
def Block.dataEntries (b : Block) : List DataEntry :=
  ((List.range b.npages).filter fun i => (b.page i).epochBit).map fun i =>
    ⟨if (b.page i).dirty then i else i + deltaIdxClean, (b.page i).mem⟩

/-- `get_hot_epoch`. -/
def Block.getHotEpoch (b : Block) : Block := b.onPages 0 b.npages fun _ => getHotEpochPage

/-- `heat_written_pages`. -/
def Block.heatWrittenPages (b : Block) : Block :=
  b.onPages 0 b.npages fun _ => heatWrittenPage b.epochNo

def Block.deltaSave (b : Block) (forward : Bool) : Except Errno Bytes × Block :=
  if !b.epochActive then (.error .einval, b)
  else
    let b := b.getHotEpoch
    if !forward then (.error .enotsup, b)
    else
      (.ok (encodeDelta b.npages b.shared.epochNstat b.shared.epochNdirty b.statEntries
          b.dataEntries),
        b.heatWrittenPages)

/-! ## Applying -/

/-- One entry of the status list. -/
def Load.statusEntry (l : Load) (_ : Nat) : Load × Option Errno :=
  match rd 8 l.rest with
  | none => (l, some .eio)
  | some (idx, rest) =>
    match rd 1 rest with
    | none => (l, some .eio)
    | some (status, rest) =>
      let i := leVal idx
      if l.block.npages ≤ i then (l, some .einval)
      else
        let before := (l.block.page i).nativeProt
        (({ l.onPage i (noteStatus i (status.getD 0 0)) with rest }).noteChange i before, none)

/-- A page as one data entry leaves it: clean if the frame gave it back and it is
visible. -/
def deltaWrite (clean : Bool) (bytes : PageBytes) (x : Track) : Track :=
  let x := setMem bytes x
  if clean && !x.page.invisible then setDirty false x else shadowRewritten (setDirty true x)

/-- One entry of the data list. -/
def Load.dataEntry (l : Load) (_ : Nat) : Load × Option Errno :=
  match rd 8 l.rest with
  | none => (l, some .eio)
  | some (idx, rest) =>
    let i := deltaPage (leVal idx)
    if l.block.npages ≤ i then (l, some .einval)
    else
      let before := (l.block.page i).nativeProt
      let l := l.onPage i maybeSnapshot
      match readPage (l.block.page i).mem rest with
      | (bytes, none) =>
        ((l.onPage i fun x => setDirty true (setMem bytes x)).noteChange i before, some .eio)
      | (bytes, some rest) =>
        let clean := decide (deltaIdxClean ≤ leVal idx)
        (({ l.onPage i (deltaWrite clean bytes) with rest }).noteChange i before, none)

/-- The checks before anything changes: the magic, this machine's page count, and
a count of statuses. -/
def Block.readDeltaHeader (b : Block) (stream : Bytes) : Except Errno (Nat × Bytes) := do
  let some (magic, stream) := rd 13 stream | .error .eio
  if magic ≠ deltaMagic then .error .einval
  let some (npages, stream) := rd 8 stream | .error .eio
  if leVal npages ≠ b.npages then .error .einval
  let some (nstatus, stream) := rd 8 stream | .error .eio
  .ok (leVal nstatus, stream)

/-- The two lists, the first run closed between them. -/
def Load.deltaLists (l : Load) (nstatus : Nat) : Load × Option Errno :=
  match untilStop statusEntry nstatus 0 l with
  | (l, some reason) => (l, some reason)
  | (l, none) =>
    let l := { l with pending := { block := l.pending.close } }
    match rd 8 l.rest with
    | none => (l, some .eio)
    | some (ndata, rest) => untilStop dataEntry (leVal ndata) 0 { l with rest }

/-- `mb_block_delta_apply`: what is left of the stream, or why it was refused,
and the block. -/
def Block.deltaApply (b : Block) (stream : Bytes) : Except Errno Bytes × Block :=
  if !b.isSealed then (.error .einval, b)
  else
    let b := { b with loadTouched := false }
    match b.readDeltaHeader stream with
    | .error e => (.error e, b)
    | .ok (nstatus, rest) =>
      let b := { b with loadTouched := true }
      let ended := Load.deltaLists { pending := { block := b }, rest } nstatus
      (match ended.2 with
        | none => .ok ended.1.rest
        | some reason => .error reason,
        ended.1.pending.close.epochClear)

/-! ## Composing -/

/-- `delta_parts`: a delta read into memory. -/
structure DeltaParts where
  npages : Nat
  status : List StatusEntry
  data : List DataEntry
  deriving DecidableEq

/-- The next entry of a status list. -/
def StatusEntry.read (stream : Bytes) : Except Errno (StatusEntry × Bytes) := do
  let some (idx, stream) := rd 8 stream | .error .eio
  let some (status, stream) := rd 1 stream | .error .eio
  .ok (⟨leVal idx, status.getD 0 0⟩, stream)

/-- The next entry of a data list. -/
def DataEntry.read (stream : Bytes) : Except Errno (DataEntry × Bytes) := do
  let some (idx, stream) := rd 8 stream | .error .eio
  match readPage .zero stream with
  | (_, none) => .error .eio
  | (bytes, some stream) => .ok (⟨leVal idx, bytes⟩, stream)

/-- An entry refused when its page is not one of `npages`. -/
def readWithin {α σ : Type} (npages : Nat) (page : α → Nat)
    (one : σ → Except Errno (α × σ)) (stream : σ) : Except Errno (α × σ) := do
  let (entry, stream) ← one stream
  if npages ≤ page entry then .error .einval
  .ok (entry, stream)

/-- `parts_read`: the delta at the head of a stream, and what follows it. -/
def partsRead (stream : Bytes) : Except Errno (DeltaParts × Bytes) := do
  let some (magic, stream) := rd 13 stream | .error .eio
  if magic ≠ deltaMagic then .error .einval
  let some (npages, stream) := rd 8 stream | .error .eio
  let npages := leVal npages
  if npages > (2 ^ 64 - 1) / pageSize then .error .einval
  let some (nstatus, stream) := rd 8 stream | .error .eio
  if leVal nstatus > npages then .error .einval
  let (status, stream) ←
    readMany (readWithin npages StatusEntry.idx StatusEntry.read) (leVal nstatus) stream
  let some (ndata, stream) := rd 8 stream | .error .eio
  if leVal ndata > npages then .error .einval
  let (data, stream) ←
    readMany (readWithin npages DataEntry.page DataEntry.read) (leVal ndata) stream
  .ok (⟨npages, status, data⟩, stream)

/-- `merged_count`: the entries a merge of two arrays of indices produces. -/
def mergedCount (a b : List Nat) : (fuel i j n : Nat) → Nat
  | 0, i, j, n => n + (a.length - i) + (b.length - j)
  | fuel + 1, i, j, n =>
    match a[i]?, b[j]? with
    | some x, some y =>
      if deltaPage x < deltaPage y then mergedCount a b fuel (i + 1) j (n + 1)
      else if deltaPage y < deltaPage x then mergedCount a b fuel i (j + 1) (n + 1)
      else mergedCount a b fuel (i + 1) (j + 1) (n + 1)
    | _, _ => n + (a.length - i) + (b.length - j)

/-- The loops of `mb_block_delta_compose` that write a list: the later delta's
entry where its key is not greater, and the earlier one's of that key skipped. -/
def partsWrite {α : Type} (key : α → Nat) (encode : α → Bytes) (a b : List α) :
    (fuel i j : Nat) → Bytes
  | 0, _, _ => []
  | fuel + 1, i, j =>
    match a[i]?, b[j]? with
    | none, none => []
    | none, some y => encode y ++ partsWrite key encode a b fuel i (j + 1)
    | some x, none => encode x ++ partsWrite key encode a b fuel (i + 1) j
    | some x, some y =>
      if key y ≤ key x then
        let i := if key x = key y then i + 1 else i
        encode y ++ partsWrite key encode a b fuel i (j + 1)
      else encode x ++ partsWrite key encode a b fuel (i + 1) j

/-- What `mb_block_delta_compose` writes.  Statuses are counted by page and
written by index. -/
def DeltaParts.compose (a b : DeltaParts) : Bytes :=
  let statuses := a.status.length + b.status.length
  let datas := a.data.length + b.data.length
  deltaMagic ++ le 8 a.npages ++
    le 8 (mergedCount (a.status.map StatusEntry.idx)
      (b.status.map StatusEntry.idx) statuses 0 0 0) ++
    partsWrite StatusEntry.idx StatusEntry.encode a.status b.status statuses 0 0 ++
    le 8 (mergedCount (a.data.map DataEntry.idx) (b.data.map DataEntry.idx) datas 0 0 0) ++
    partsWrite DataEntry.page DataEntry.encode a.data b.data datas 0 0

/-- `mb_block_delta_compose`: the composition, and what follows each delta on its
stream. -/
def deltaCompose (a b : Bytes) : Except Errno (Bytes × Bytes × Bytes) := do
  let (a, afterA) ← partsRead a
  let (b, afterB) ← partsRead b
  if a.npages ≠ b.npages then .error .einval
  .ok (a.compose b, afterA, afterB)

/-! ## Composing in place -/

/-- `delta_view`: a buffer, the counts in it, and where its two lists begin. -/
structure DeltaView where
  buf : Bytes
  npages : Nat
  nstatus : Nat
  ndata : Nat
  status : Nat
  data : Nat

/-- `DELTA_STATUS_STRIDE`. -/
def statusStride : Nat := 8 + 1

/-- `DELTA_DATA_STRIDE`. -/
def dataStride : Nat := 8 + pageSize

/-- `view_idx`: the page of the entry that begins here. -/
def viewIdx (entry : Bytes) : Nat := deltaPage (leVal (entry.take 8))

/-- `view_open`: the delta at the start of a buffer.  Indices are not checked
here. -/
def viewOpen (buf : Bytes) : Except Errno DeltaView := do
  if buf.length < 13 + 3 * 8 then .error .einval
  if buf.take 13 ≠ deltaMagic then .error .einval
  let npages := leVal ((buf.drop 13).take 8)
  let nstatus := leVal ((buf.drop 21).take 8)
  if nstatus > npages then .error .einval
  if nstatus > (buf.length - 29) / statusStride then .error .einval
  let past := 29 + nstatus * statusStride
  if past + 8 > buf.length then .error .einval
  let ndata := leVal ((buf.drop past).take 8)
  if ndata > npages then .error .einval
  if ndata > (buf.length - (past + 8)) / dataStride then .error .einval
  .ok ⟨buf, npages, nstatus, ndata, 29, past + 8⟩

/-- `view_merged`: the entries a merge of two packed lists produces. -/
def viewMerged (a : Bytes) (na : Nat) (b : Bytes) (nb stride : Nat) : (fuel i j n : Nat) → Nat
  | 0, _, _, n => n
  | fuel + 1, i, j, n =>
    if i < na ∨ j < nb then
      if na ≤ i then viewMerged a na b nb stride fuel i (j + 1) (n + 1)
      else if nb ≤ j then viewMerged a na b nb stride fuel (i + 1) j (n + 1)
      else
        let ia := viewIdx (a.drop (i * stride))
        let ib := viewIdx (b.drop (j * stride))
        if ia = ib then viewMerged a na b nb stride fuel (i + 1) (j + 1) (n + 1)
        else if ia < ib then viewMerged a na b nb stride fuel (i + 1) j (n + 1)
        else viewMerged a na b nb stride fuel i (j + 1) (n + 1)
    else n

/-- The loops of `mb_block_delta_compose_mem` that write a list, each entry as it
lies. -/
def viewWrite (a : Bytes) (na : Nat) (b : Bytes) (nb stride : Nat) : (fuel i j : Nat) → Bytes
  | 0, _, _ => []
  | fuel + 1, i, j =>
    if i < na ∨ j < nb then
      let ea := a.drop (i * stride)
      let eb := b.drop (j * stride)
      if na ≤ i ∨ j < nb ∧ viewIdx eb ≤ viewIdx ea then
        let i := if i < na ∧ viewIdx ea = viewIdx eb then i + 1 else i
        eb.take stride ++ viewWrite a na b nb stride fuel i (j + 1)
      else ea.take stride ++ viewWrite a na b nb stride fuel (i + 1) j
    else []

/-- What `mb_block_delta_compose_mem` writes. -/
def DeltaView.compose (a b : DeltaView) : Bytes :=
  let statuses := a.nstatus + b.nstatus
  let datas := a.ndata + b.ndata
  let statusA := a.buf.drop a.status
  let statusB := b.buf.drop b.status
  let dataA := a.buf.drop a.data
  let dataB := b.buf.drop b.data
  deltaMagic ++ le 8 a.npages ++
    le 8 (viewMerged statusA a.nstatus statusB b.nstatus statusStride statuses 0 0 0) ++
    viewWrite statusA a.nstatus statusB b.nstatus statusStride statuses 0 0 ++
    le 8 (viewMerged dataA a.ndata dataB b.ndata dataStride datas 0 0 0) ++
    viewWrite dataA a.ndata dataB b.ndata dataStride datas 0 0

/-- `mb_block_delta_compose_mem`: the composition, and how much of `b` the later
delta takes up. -/
def deltaComposeMem (a b : Bytes) : Except Errno (Bytes × Nat) := do
  let a ← viewOpen a
  let b ← viewOpen b
  if a.npages ≠ b.npages then .error .einval
  .ok (a.compose b, b.data + b.ndata * dataStride)

end MiniBox
