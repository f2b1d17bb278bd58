import MiniBox.Block.Compose
import MiniBox.Lib.Reader
import MiniBox.Threads.Stream

/-!
# Composing two deltas of a machine

A machine's delta is the block's delta with the program break and the machine's hash
before it, and the thread set, the open files and the end magic after it.  A history
composes deltas it stores: `hostDeltaCompose` reads both through callbacks, while
`hostDeltaComposeMem` walks two buffers where they lie.  The first knows where the block's
delta ends by having read it, and copies what follows to the end of the stream; the second
is told by the block's composer how many bytes to step over.

The two write the same bytes, however the callbacks cut their streams
(`HostDelta.composers_agree`).
-/

namespace MiniBox

open Lib

/-! ## The block's delta through a callback -/

section Streamed

variable (r : Reader)

/-- A page's bytes through the callback. -/
def fillPage (s : r.State) : Option (PageBytes × r.State) :=
  match filled : r.fill pageSize s with
  | none => none
  | some got => some (⟨got.1, r.fill_length filled⟩, got.2)

def StatusEntry.readFrom (s : r.State) : Except Errno (StatusEntry × r.State) := do
  let some (idx, s) := r.fill 8 s | .error .eio
  let some (status, s) := r.fill 1 s | .error .eio
  .ok (⟨leVal idx, status.getD 0 0⟩, s)

def DataEntry.readFrom (s : r.State) : Except Errno (DataEntry × r.State) := do
  let some (idx, s) := r.fill 8 s | .error .eio
  let some (bytes, s) := fillPage r s | .error .eio
  .ok (⟨leVal idx, bytes⟩, s)

/-- `parts_read`. -/
def partsReadFrom (s : r.State) : Except Errno (DeltaParts × r.State) := do
  let some (magic, s) := r.fill 13 s | .error .eio
  if magic ≠ deltaMagic then .error .einval
  let some (npages, s) := r.fill 8 s | .error .eio
  let npages := leVal npages
  if npages > (2 ^ 64 - 1) / pageSize then .error .einval
  let some (nstatus, s) := r.fill 8 s | .error .eio
  if leVal nstatus > npages then .error .einval
  let (status, s) ←
    readMany (readWithin npages StatusEntry.idx (StatusEntry.readFrom r)) (leVal nstatus) s
  let some (ndata, s) := r.fill 8 s | .error .eio
  if leVal ndata > npages then .error .einval
  let (data, s) ←
    readMany (readWithin npages DataEntry.page (DataEntry.readFrom r)) (leVal ndata) s
  .ok (⟨npages, status, data⟩, s)

variable {r}

theorem fillPage_fills (s : r.State) : r.Fills (fillPage r s)
      (match readPage .zero (r.remaining s) with
        | (_, none) => none
        | (bytes, some rest) => some (bytes, rest)) := by
  have fills := r.fill_fills pageSize s
  unfold fillPage
  split
  · rename_i ended
    rw [ended] at fills
    generalize direct : rd pageSize (r.remaining s) = read at fills
    cases fills with
    | none =>
      unfold rd at direct
      split_ifs at direct with enough
      unfold readPage
      rw [dif_neg enough]
      exact .none
  · rename_i got filled
    have whole := r.fill_length filled
    rw [filled] at fills
    generalize direct : rd pageSize (r.remaining s) = read at fills
    cases fills with
    | some bytes s' =>
      have starts := (rd_eq_some.mp direct).1
      rw [starts, readPage_append .zero ⟨bytes, whole⟩]
      exact .some _ s'

theorem StatusEntry.readFrom_follows (s : r.State) :
    r.Follows (readFrom r s) (read (r.remaining s)) := by
  have idx := r.fill_fills 8 s
  unfold readFrom read
  generalize r.fill 8 s = through, rd 8 (r.remaining s) = direct at idx
  cases idx with
  | none => exact .error _
  | some idx s =>
    have status := r.fill_fills 1 s
    dsimp only
    generalize r.fill 1 s = through, rd 1 (r.remaining s) = direct at status
    cases status with
    | none => exact .error _
    | some status s => exact .ok _ s

theorem DataEntry.readFrom_follows (s : r.State) :
    r.Follows (readFrom r s) (read (r.remaining s)) := by
  have idx := r.fill_fills 8 s
  unfold readFrom read
  generalize r.fill 8 s = through, rd 8 (r.remaining s) = direct at idx
  cases idx with
  | none => exact .error _
  | some idx s =>
    have page := fillPage_fills s
    dsimp only
    generalize fillPage r s = through, readPage .zero (r.remaining s) = direct at page
    obtain ⟨bytes, rest⟩ := direct
    cases rest with
    | none =>
      cases page
      exact .error _
    | some rest =>
      cases page
      exact .ok _ _

theorem readWithin_follows {α : Type} (npages : Nat) (page : α → Nat)
    {one : r.State → Except Errno (α × r.State)} {direct : Bytes → Except Errno (α × Bytes)}
    (follows : ∀ s, r.Follows (one s) (direct (r.remaining s))) (s : r.State) :
    r.Follows (readWithin npages page one s) (readWithin npages page direct (r.remaining s)) := by
  have entry := follows s
  unfold readWithin
  generalize one s = through, direct (r.remaining s) = read at entry
  cases entry with
  | error e => exact .error e
  | ok entry s =>
    simp only [ok_bind]
    split_ifs
    · exact .error _
    · exact .ok _ s

/-- A delta read through a callback is the delta at the head of the callback's bytes. -/
theorem partsReadFrom_follows (s : r.State) :
    r.Follows (partsReadFrom r s) (partsRead (r.remaining s)) := by
  have magic := r.fill_fills 13 s
  unfold partsReadFrom partsRead
  generalize r.fill 13 s = through, rd 13 (r.remaining s) = direct at magic
  cases magic with
  | none => exact .error _
  | some magic s =>
  dsimp only
  split_ifs
  · exact .error _
  have npages := r.fill_fills 8 s
  generalize r.fill 8 s = through, rd 8 (r.remaining s) = direct at npages
  cases npages with
  | none => exact .error _
  | some npages s =>
  dsimp only
  split_ifs
  · exact .error _
  have nstatus := r.fill_fills 8 s
  generalize r.fill 8 s = through, rd 8 (r.remaining s) = direct at nstatus
  cases nstatus with
  | none => exact .error _
  | some nstatus s =>
  dsimp only
  split_ifs
  · exact .error _
  have status := r.readMany_follows (readWithin_follows (leVal npages) StatusEntry.idx
    StatusEntry.readFrom_follows) (leVal nstatus) s
  generalize readMany _ _ s = through, readMany _ _ (r.remaining s) = direct at status
  cases status with
  | error e => exact .error e
  | ok status s =>
  simp only [ok_bind]
  have ndata := r.fill_fills 8 s
  generalize r.fill 8 s = through, rd 8 (r.remaining s) = direct at ndata
  cases ndata with
  | none => exact .error _
  | some ndata s =>
  dsimp only
  split_ifs
  · exact .error _
  have data := r.readMany_follows (readWithin_follows (leVal npages) DataEntry.page
    DataEntry.readFrom_follows) (leVal ndata) s
  generalize readMany _ _ s = through, readMany _ _ (r.remaining s) = direct at data
  cases data with
  | error e => exact .error e
  | ok data s => exact .ok _ s

theorem partsReadFrom_encode {n : Nat} (d : Delta n) (fits : fitsPages n) {rest : Bytes}
    {s : r.State} (starts : r.remaining s = d.encode ++ rest) :
    ∃ s', partsReadFrom r s = .ok (d.parts, s') ∧ r.remaining s' = rest := by
  have follows := partsReadFrom_follows s
  rw [starts, partsRead_encode d fits] at follows
  generalize partsReadFrom r s = through at follows
  cases follows with
  | ok parts s' => exact ⟨s', rfl, rfl⟩

end Streamed

/-- `mb_block_delta_compose`: the composition, and where each callback stands after it. -/
def deltaComposeFrom (ra rb : Reader) (sa : ra.State) (sb : rb.State) :
    Except Errno (Bytes × ra.State × rb.State) := do
  let (a, sa) ← partsReadFrom ra sa
  let (b, sb) ← partsReadFrom rb sb
  if a.npages ≠ b.npages then .error .einval
  .ok (a.compose b, sa, sb)

/-! ## The two composers -/

/-- `DELTA_START`: "MiniBoxHostDelta_v1". -/
def deltaStart : Bytes :=
  [0x4d, 0x69, 0x6e, 0x69, 0x42, 0x6f, 0x78, 0x48, 0x6f, 0x73, 0x74, 0x44, 0x65, 0x6c, 0x74, 0x61,
    0x5f, 0x76, 0x31]

/-- `SAVE_END`: the start's text upside down, in UTF-8. -/
def saveEnd : Bytes :=
  [0xcb, 0x87, 0x73, 0x6f, 0x48, 0x78, 0x6f, 0x71, 0xc9, 0xaf, 0xc7, 0x9d, 0xca, 0x87, 0xc9, 0x90,
    0x4d, 0x70, 0xc7, 0x9d, 0xca, 0x87, 0xc9, 0x90, 0xca, 0x8c, 0xe1, 0xb4, 0x89, 0xca, 0x87, 0xc9,
    0x94, 0xe2, 0x88, 0x80]

/-- What a composer wrote, and why it stopped if it did. -/
structure ComposeAnswer where
  written : Bytes
  refused : Option String
  deriving DecidableEq

/-- `expect`: the magic, or the refusal of anything else. -/
def expect (r : Reader) (magic : Bytes) (s : r.State) : Option r.State :=
  match r.fill magic.length s with
  | none => none
  | some (came, s) => if came = magic then some s else none

/-- The headers of two deltas: the composition's own, the later delta's break in it. -/
def composeHeader (ra rb : Reader) (sa : ra.State) (sb : rb.State) :
    Except String (Bytes × ra.State × rb.State) := do
  let some sa := expect ra deltaStart sa | .error "bad delta magic"
  let some sb := expect rb deltaStart sb | .error "bad delta magic"
  let some (_, sa) := ra.fill 8 sa | .error "delta read failed"
  let some (hashA, sa) := ra.fill 32 sa | .error "delta read failed"
  let some (brkB, sb) := rb.fill 8 sb | .error "delta read failed"
  let some (hashB, sb) := rb.fill 32 sb | .error "delta read failed"
  if hashA ≠ hashB then .error "deltas are of different machines"
  .ok (deltaStart ++ brkB ++ hashB, sa, sb)

/-- `mb_host_delta_compose`: what the later delta has left goes out as it is. -/
def hostDeltaCompose (ra rb : Reader) (sa : ra.State) (sb : rb.State) : ComposeAnswer :=
  match composeHeader ra rb sa sb with
  | .error why => ⟨[], some why⟩
  | .ok (header, sa, sb) =>
    match deltaComposeFrom ra rb sa sb with
    | .error _ => ⟨header, some "memory delta compose failed"⟩
    | .ok (memory, _, sb) => ⟨header ++ memory ++ rb.drain 65536 sb, none⟩

/-- `mb_host_delta_compose_mem`. -/
def hostDeltaComposeMem (a b : Bytes) : ComposeAnswer :=
  if a.length < 19 + 40 ∨ b.length < 19 + 40 ∨ a.take 19 ≠ deltaStart ∨ b.take 19 ≠ deltaStart then
    ⟨[], some "bad delta magic"⟩
  else if (a.drop (19 + 8)).take 32 ≠ (b.drop (19 + 8)).take 32 then
    ⟨[], some "deltas are of different machines"⟩
  else
    let header := deltaStart ++ (b.drop 19).take 8 ++ (b.drop (19 + 8)).take 32
    match deltaComposeMem (a.drop (19 + 40)) (b.drop (19 + 40)) with
    | .error _ => ⟨header, some "memory delta compose failed"⟩
    | .ok (memory, used) => ⟨header ++ memory ++ (b.drop (19 + 40)).drop used, none⟩

/-! ## They agree -/

/-- A machine's delta. -/
structure HostDelta where
  brk : UInt64
  hash : { bs : Bytes // bs.length = 32 }
  npages : Nat
  fits : fitsPages npages
  memory : Delta npages
  threads : Bytes
  files : Bytes

/-- What stands after the block's delta. -/
def HostDelta.tail (d : HostDelta) : Bytes := d.threads ++ d.files ++ saveEnd

def HostDelta.encode (d : HostDelta) : Bytes :=
  deltaStart ++ (encode64 d.brk ++ (d.hash.val ++ (d.memory.encode ++ d.tail)))

namespace HostDelta

variable {ra rb : Reader} {sa : ra.State} {sb : rb.State} {n m : Nat} {restA restB : Bytes}

/-- A delta's header through a callback. -/
theorem header_through (d : HostDelta) {r : Reader} {s : r.State}
    (starts : r.remaining s = d.encode) :
    ∃ s₁ s₂ s₃, expect r deltaStart s = some s₁ ∧ r.fill 8 s₁ = some (encode64 d.brk, s₂) ∧
      r.fill 32 s₂ = some (d.hash.val, s₃) ∧ r.remaining s₃ = d.memory.encode ++ d.tail := by
  obtain ⟨s₁, magic, after₁⟩ := r.fill_append starts rfl
  obtain ⟨s₂, brk, after₂⟩ := r.fill_append after₁ (le_length 8 _)
  obtain ⟨s₃, hash, after₃⟩ := r.fill_append after₂ d.hash.property
  refine ⟨s₁, s₂, s₃, ?_, brk, hash, after₃⟩
  simp only [expect, magic, if_true]

/-- A delta's header in a buffer. -/
theorem header_inside (d : HostDelta) : 19 + 40 ≤ d.encode.length ∧ d.encode.take 19 = deltaStart ∧
      (d.encode.drop 19).take 8 = encode64 d.brk ∧ (d.encode.drop (19 + 8)).take 32 = d.hash.val ∧
      d.encode.drop (19 + 40) = d.memory.encode ++ d.tail := by
  have whole : d.encode.drop 0 = _ := rfl
  obtain ⟨magic, after₁⟩ := drop_next whole (show deltaStart.length = 19 from rfl)
  obtain ⟨brk, after₂⟩ := drop_next after₁ (le_length 8 _)
  obtain ⟨hash, after₃⟩ := drop_next after₂ d.hash.property
  rw [Nat.zero_add] at brk after₂ hash after₃
  refine ⟨?_, magic, brk, hash, after₃⟩
  have start : deltaStart.length = 19 := rfl
  have word : (encode64 d.brk).length = 8 := le_length 8 _
  have stamp := d.hash.property
  simp only [encode, List.length_append, start, word, stamp]
  omega

/-- The header two deltas of one machine are composed under. -/
def composedHeader (later : HostDelta) : Bytes :=
  deltaStart ++ encode64 later.brk ++ later.hash.val

theorem composeHeader_encode (a b : HostDelta) (startsA : ra.remaining sa = a.encode)
    (startsB : rb.remaining sb = b.encode) :
    (a.hash.val ≠ b.hash.val ∧
      composeHeader ra rb sa sb = .error "deltas are of different machines") ∨
    (a.hash.val = b.hash.val ∧ ∃ sa' sb', composeHeader ra rb sa sb = .ok
      (b.composedHeader, sa', sb') ∧
      ra.remaining sa' = a.memory.encode ++ a.tail ∧
      rb.remaining sb' = b.memory.encode ++ b.tail) := by
  obtain ⟨a₁, a₂, a₃, magicA, brkA, hashA, restA⟩ := a.header_through startsA
  obtain ⟨b₁, b₂, b₃, magicB, brkB, hashB, restB⟩ := b.header_through startsB
  unfold composeHeader
  simp only [magicA, magicB, brkA, brkB, hashA, hashB]
  by_cases same : a.hash.val = b.hash.val
  · refine .inr ⟨same, a₃, b₃, ?_, restA, restB⟩
    rw [if_neg (not_not_intro same)]
    rfl
  · refine .inl ⟨same, ?_⟩
    rw [if_pos same]
    rfl

/-- The two composers of the block's deltas, whatever follows each delta: the same bytes,
and the count of the one is what the other has read of the later stream. -/
theorem blockComposers_agree (a : Delta n) (b : Delta m) (same : n = m) (fits : fitsPages m)
    (startsA : ra.remaining sa = a.encode ++ restA)
    (startsB : rb.remaining sb = b.encode ++ restB) :
    ∃ merged : Delta m, merged.status = mergeLater StatusEntry.idx a.status b.status ∧
      merged.data = mergeLater DataEntry.page a.data b.data ∧ ∃ sa' sb',
      deltaComposeMem (a.encode ++ restA) (b.encode ++ restB) =
        .ok (merged.encode, b.encode.length) ∧
      deltaComposeFrom ra rb sa sb = .ok (merged.encode, sa', sb') ∧ rb.remaining sb' = restB := by
  subst same
  obtain ⟨sa', readA, -⟩ := partsReadFrom_encode a fits startsA
  obtain ⟨sb', readB, after⟩ := partsReadFrom_encode b fits startsB
  refine ⟨a.merge b, rfl, rfl, sa', sb', deltaComposeMem_encode a b fits restA restB, ?_, after⟩
  unfold deltaComposeFrom
  rw [readA, readB]
  simp only [ok_bind, Delta.encode_merge a b fits]
  simp only [Delta.parts, ne_eq, not_true_eq_false, if_false]

/-- Deltas of different page counts are refused by both. -/
theorem blockComposers_refuse (a : Delta n) (b : Delta m) (fitsA : fitsPages n)
    (fitsB : fitsPages m) (differ : n ≠ m) (startsA : ra.remaining sa = a.encode ++ restA)
    (startsB : rb.remaining sb = b.encode ++ restB) :
    deltaComposeMem (a.encode ++ restA) (b.encode ++ restB) = .error .einval ∧
      deltaComposeFrom ra rb sa sb = .error .einval := by
  obtain ⟨sa', readA, -⟩ := partsReadFrom_encode a fitsA startsA
  obtain ⟨sb', readB, -⟩ := partsReadFrom_encode b fitsB startsB
  constructor
  · unfold deltaComposeMem
    rw [viewOpen_encode a fitsA, viewOpen_encode b fitsB]
    simp only [ok_bind, error_bind, DeltaParts.view, Delta.parts, ne_eq, differ, not_false_eq_true,
      if_true]
  · unfold deltaComposeFrom
    rw [readA, readB]
    simp only [ok_bind, error_bind, Delta.parts, ne_eq, differ, not_false_eq_true, if_true]

/-- What the composer over buffers does to two deltas of one machine. -/
theorem composeMem_encode (a b : HostDelta) (machine : a.hash.val = b.hash.val) :
    hostDeltaComposeMem a.encode b.encode =
      match deltaComposeMem (a.memory.encode ++ a.tail) (b.memory.encode ++ b.tail) with
      | .error _ => ⟨b.composedHeader, some "memory delta compose failed"⟩
      | .ok (memory, used) =>
        ⟨b.composedHeader ++ memory ++ (b.memory.encode ++ b.tail).drop used, none⟩ := by
  obtain ⟨longA, magicA, -, hashA, restA⟩ := a.header_inside
  obtain ⟨longB, magicB, brkB, hashB, restB⟩ := b.header_inside
  unfold hostDeltaComposeMem
  rw [if_neg (by simp [magicA, magicB]; omega), hashA, hashB, if_neg (not_not_intro machine), restA,
    restB, brkB]
  rfl

theorem composeMem_refuses (a b : HostDelta) (machines : a.hash.val ≠ b.hash.val) :
    hostDeltaComposeMem a.encode b.encode = ⟨[], some "deltas are of different machines"⟩ := by
  obtain ⟨longA, magicA, -, hashA, -⟩ := a.header_inside
  obtain ⟨longB, magicB, -, hashB, -⟩ := b.header_inside
  unfold hostDeltaComposeMem
  rw [if_neg (by simp [magicA, magicB]; omega), hashA, hashB, if_pos machines]

/-- Two deltas of one machine compose to the later one with the merged memory in it. -/
theorem composeMem_merge (a b : HostDelta) (machine : a.hash = b.hash)
    (pages : a.npages = b.npages) : ∃ memory : Delta b.npages,
      memory.status = mergeLater StatusEntry.idx a.memory.status b.memory.status ∧
      memory.data = mergeLater DataEntry.page a.memory.data b.memory.data ∧
      hostDeltaComposeMem a.encode b.encode = ⟨{ b with memory }.encode, none⟩ := by
  have startsA : (Reader.cut id).remaining (0, a.memory.encode ++ a.tail) = _ := rfl
  have startsB : (Reader.cut id).remaining (0, b.memory.encode ++ b.tail) = _ := rfl
  obtain ⟨memory, status, data, _, _, inside, -, -⟩ :=
    blockComposers_agree a.memory b.memory pages b.fits startsA startsB
  refine ⟨memory, status, data, ?_⟩
  rw [composeMem_encode a b (congrArg Subtype.val machine), inside]
  simp [encode, composedHeader, tail]

/-- However the callbacks cut the two deltas, the composers write and answer the same. -/
theorem compose_eq_composeMem (a b : HostDelta) (startsA : ra.remaining sa = a.encode)
    (startsB : rb.remaining sb = b.encode) :
    hostDeltaCompose ra rb sa sb = hostDeltaComposeMem a.encode b.encode := by
  unfold hostDeltaCompose
  rcases composeHeader_encode a b startsA startsB with ⟨differ, header⟩ | ⟨same, sa, sb, header,
    restA, restB⟩
  · rw [header, composeMem_refuses a b differ]
  · rw [header, composeMem_encode a b same]
    dsimp only
    by_cases pages : a.npages = b.npages
    · obtain ⟨memory, -, -, _, _, inside, through, left⟩ :=
        blockComposers_agree a.memory b.memory pages b.fits restA restB
      rw [inside, through]
      dsimp only
      rw [Reader.drain_eq _ (by decide), left, List.drop_left]
    · obtain ⟨inside, through⟩ :=
        blockComposers_refuse a.memory b.memory a.fits b.fits pages restA restB
      rw [inside, through]

/-- The two composers write the same bytes and answer the same, however the callbacks cut
the two deltas; composing deltas of one machine gives the later delta with the merged
memory in it; and where the later block delta ends in the buffer is where the callback
stands once it has been read. -/
theorem composers_agree (a b : HostDelta) {ra rb : Reader} {sa : ra.State} {sb : rb.State}
    (startsA : ra.remaining sa = a.encode) (startsB : rb.remaining sb = b.encode) :
    hostDeltaCompose ra rb sa sb = hostDeltaComposeMem a.encode b.encode ∧
    (a.hash = b.hash → a.npages = b.npages → ∃ memory : Delta b.npages,
      memory.status = mergeLater StatusEntry.idx a.memory.status b.memory.status ∧
      memory.data = mergeLater DataEntry.page a.memory.data b.memory.data ∧
      hostDeltaComposeMem a.encode b.encode = ⟨{ b with memory }.encode, none⟩) ∧
    (a.npages = b.npages → ∀ {restA restB : Bytes} {ra rb : Reader} {sa : ra.State} {sb : rb.State},
      ra.remaining sa = a.memory.encode ++ restA → rb.remaining sb = b.memory.encode ++ restB →
      ∃ merged used sa' sb',
        deltaComposeMem (a.memory.encode ++ restA) (b.memory.encode ++ restB) = .ok (merged, used) ∧
        deltaComposeFrom ra rb sa sb = .ok (merged, sa', sb') ∧
        used + (rb.remaining sb').length = (rb.remaining sb).length) := by
  refine ⟨compose_eq_composeMem a b startsA startsB, composeMem_merge a b, ?_⟩
  intro pages restA restB ra rb sa sb startsA startsB
  obtain ⟨merged, -, -, sa', sb', inside, through, left⟩ :=
    blockComposers_agree a.memory b.memory pages b.fits startsA startsB
  refine ⟨_, _, sa', sb', inside, through, ?_⟩
  rw [startsB, left, List.length_append]

/-- A delta that writes the one page of a machine. -/
def onePage (brk : UInt64) (bytes : PageBytes) : HostDelta where
  brk := brk
  hash := ⟨List.replicate 32 0, List.length_replicate⟩
  npages := 1
  fits := show 1 ≤ _ by decide
  memory := Delta.writes bytes
  threads := [1]
  files := [2]

/-- Two such deltas, the first delivered byte by byte and the second in pieces that grow. -/
theorem composers_agree_onePage :
    hostDeltaCompose (Reader.cut fun _ => 0) (Reader.cut id) (0, (onePage 1 (.fill 1)).encode)
        (0, (onePage 2 (.fill 2)).encode) =
      hostDeltaComposeMem (onePage 1 (.fill 1)).encode (onePage 2 (.fill 2)).encode ∧
    ∃ memory, hostDeltaComposeMem (onePage 1 (.fill 1)).encode (onePage 2 (.fill 2)).encode =
      ⟨{ onePage 2 (.fill 2) with memory }.encode, none⟩ := by
  have startsA : (Reader.cut fun _ => 0).remaining (0, (onePage 1 (.fill 1)).encode) = _ := rfl
  have startsB : (Reader.cut id).remaining (0, (onePage 2 (.fill 2)).encode) = _ := rfl
  obtain ⟨agree, composed, -⟩ := composers_agree _ _ startsA startsB
  obtain ⟨memory, -, -, later⟩ := composed rfl rfl
  exact ⟨agree, memory, later⟩

end HostDelta

end MiniBox
