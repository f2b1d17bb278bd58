import MiniBox.Block.MergeLoops
import MiniBox.Block.Reload

/-!
# The delta format

A `Delta n` is a delta of a machine of `n` pages, its lists ascending and its pages in
range.  What `delta_save` writes is the encoding of one, both composers turn the
encodings of two into the encoding of their merge, and applying an encoding applies the
entries of its two lists one after the other and leaves the rest of the stream alone.
-/

namespace MiniBox

open Lib

/-! ## Deltas -/

variable {n nstatus i width : Nat} {e : StatusEntry} {rest : Bytes} {status : List StatusEntry}
  {data : List DataEntry} {b : Block} {l : Load}

structure Delta (n : Nat) where
  status : List StatusEntry
  data : List DataEntry
  statusAscends : Ascending StatusEntry.idx status
  dataAscends : Ascending DataEntry.page data
  statusInside : ∀ e ∈ status, e.idx < n
  dataInside : ∀ e ∈ data, e.page < n
  /-- an index is a 64-bit word -/
  dataWord : ∀ e ∈ data, e.idx < 2 ^ 64

theorem StatusEntry.ascending_nil : Ascending idx [] := List.Pairwise.nil

def Delta.parts {n : Nat} (d : Delta n) : DeltaParts := ⟨n, d.status, d.data⟩

def Delta.encode {n : Nat} (d : Delta n) : Bytes := d.parts.encode

theorem Delta.status_length (d : Delta n) : d.status.length ≤ n :=
  ascending_length d.statusAscends fun e member => ⟨Nat.zero_le _, d.statusInside e member⟩

theorem Delta.data_length (d : Delta n) : d.data.length ≤ n :=
  ascending_length d.dataAscends fun e member => ⟨Nat.zero_le _, d.dataInside e member⟩

/-- The later delta's entries over the earlier one's. -/
def Delta.merge {n : Nat} (a b : Delta n) : Delta n where
  status := mergeLater StatusEntry.idx a.status b.status
  data := mergeLater DataEntry.page a.data b.data
  statusAscends := mergeLater_ascending a.statusAscends b.statusAscends
  dataAscends := mergeLater_ascending a.dataAscends b.dataAscends
  statusInside := forall_mergeLater a.statusInside b.statusInside
  dataInside := forall_mergeLater a.dataInside b.dataInside
  dataWord := forall_mergeLater a.dataWord b.dataWord

/-! ## Reading entries back -/

theorem readPage_append (old bytes : PageBytes) (rest : Bytes) :
    readPage old (bytes.val ++ rest) = (bytes, some rest) := by
  have whole := bytes.property
  unfold readPage
  have fits : pageSize ≤ (bytes.val ++ rest).length := by
    rw [List.length_append]
    omega
  rw [dif_pos fits]
  congr 1
  · apply Subtype.ext
    simp [← whole]
  · simp [← whole]

theorem StatusEntry.read_encode (word : e.idx < 2 ^ 64) (rest : Bytes) :
    read (e.encode ++ rest) = .ok (e, rest) := by
  unfold read encode
  have one : rd 1 ([e.status] ++ rest) = some ([e.status], rest) :=
    rd_append List.length_singleton rest
  rw [List.append_assoc, rd_append (le_length 8 _)]
  simp only [one, word_le word]
  rfl

theorem DataEntry.read_encode {e : DataEntry} (word : e.idx < 2 ^ 64) (rest : Bytes) :
    read (e.encode ++ rest) = .ok (e, rest) := by
  unfold read encode
  rw [List.append_assoc, rd_append (le_length 8 _)]
  simp [readPage_append, word_le word]

/-! ## Composing -/

theorem readWithin_ok {α : Type} {npages : Nat} {page : α → Nat}
    {one : Bytes → Except Errno (α × Bytes)} {stream : Bytes} {entry : α}
    (reads : one stream = .ok (entry, rest)) (inside : page entry < npages) :
    readWithin npages page one stream = .ok (entry, rest) := by
  unfold readWithin
  rw [reads]
  show (if npages ≤ page entry then _ else _) = _
  rw [if_neg (by omega)]

/-- The page counts of a machine fit the word that carries them. -/
def fitsPages (n : Nat) : Prop := n ≤ (2 ^ 64 - 1) / pageSize

theorem fitsPages.word (h : fitsPages n) : n < 2 ^ 64 := by
  unfold fitsPages pageSize at h
  omega

theorem Control.fitsPages (b : Control) : MiniBox.fitsPages b.npages := by
  have small := b.addr.size.toNat_lt
  unfold MiniBox.fitsPages npages
  rw [toNat_shift_page]
  unfold pageSize
  omega

theorem partsRead_encode (d : Delta n) (fits : fitsPages n) (rest : Bytes) :
    partsRead (d.encode ++ rest) = .ok (d.parts, rest) := by
  have word := fits.word
  have statusLength := d.status_length
  have dataLength := d.data_length
  have statuses : ∀ rest, readMany (readWithin n StatusEntry.idx StatusEntry.read) d.status.length
      (d.status.flatMap StatusEntry.encode ++ rest) = .ok (d.status, rest) := fun rest =>
    readMany_flatMap rest fun e member rest =>
      readWithin_ok (StatusEntry.read_encode (Nat.lt_trans (d.statusInside e member) word) rest)
        (d.statusInside e member)
  have datas : ∀ rest, readMany (readWithin n DataEntry.page DataEntry.read) d.data.length
      (d.data.flatMap DataEntry.encode ++ rest) = .ok (d.data, rest) := fun rest =>
    readMany_flatMap rest fun e member rest =>
      readWithin_ok (DataEntry.read_encode (d.dataWord e member) rest) (d.dataInside e member)
  have magic : ∀ rest, rd 13 (deltaMagic ++ rest) = some (deltaMagic, rest) := rd_append rfl
  have number : ∀ v rest, rd 8 (le 8 v ++ rest) = some (le 8 v, rest) := fun v =>
    rd_append (le_length 8 v)
  unfold partsRead
  rw [Delta.encode, DeltaParts.encode, encodeDelta_append, Delta.parts, magic]
  simp only [ne_eq, not_true_eq_false, if_false, number, word_le word,
    word_le (Nat.lt_of_le_of_lt statusLength word), word_le (Nat.lt_of_le_of_lt dataLength word),
    Nat.not_lt.mpr fits, Nat.not_lt.mpr statusLength, Nat.not_lt.mpr dataLength, gt_iff_lt,
    statuses, datas, ok_bind]

/-- The pages of a machine are below the flag. -/
theorem deltaPage_of_fits (fits : fitsPages n) (inside : i < n) : deltaPage i = i := by
  refine Nat.mod_eq_of_lt ?_
  unfold fitsPages pageSize at fits
  unfold deltaIdxClean
  omega

theorem Delta.status_page (d : Delta n) (fits : fitsPages n) :
    ∀ e ∈ d.status, e.page = e.idx := fun e member =>
  deltaPage_of_fits fits (d.statusInside e member)

theorem Delta.encode_merge (a b : Delta n) (fits : fitsPages n) :
    a.parts.compose b.parts = (a.merge b).encode :=
  DeltaParts.compose_merged (a.status_page fits) (b.status_page fits)

/-- The streaming composer writes the merge. -/
theorem deltaCompose_encode (a b : Delta n) (fits : fitsPages n) (restA restB : Bytes) :
    deltaCompose (a.encode ++ restA) (b.encode ++ restB) =
      .ok ((a.merge b).encode, restA, restB) := by
  unfold deltaCompose
  rw [partsRead_encode a fits, partsRead_encode b fits]
  simp only [ok_bind, Delta.encode_merge a b fits]
  simp only [Delta.parts, ne_eq, not_true_eq_false, if_false]

theorem viewOpen_encode (d : Delta n) (fits : fitsPages n) (rest : Bytes) :
    viewOpen (d.encode ++ rest) = .ok (d.parts.view rest) :=
  d.parts.viewOpen_encode fits.word d.status_length d.data_length rest

/-- The composer over buffers writes the merge too, and says where the later delta
ends. -/
theorem deltaComposeMem_encode (a b : Delta n) (fits : fitsPages n) (restA restB : Bytes) :
    deltaComposeMem (a.encode ++ restA) (b.encode ++ restB) =
      .ok ((a.merge b).encode, b.encode.length) := by
  have merged : a.parts.merged StatusEntry.page b.parts = (a.merge b).parts := by
    have statuses := mergeLater_congr (a.status_page fits) (b.status_page fits)
    exact congrArg (DeltaParts.mk n · (mergeLater DataEntry.page a.data b.data)) statuses
  have written := @DeltaParts.deltaComposeMem_encode a.parts b.parts fits.word rfl a.status_length
    a.data_length b.status_length b.data_length restA restB
  rw [merged] at written
  exact written

theorem readData_encode : ∀ {entries : List DataEntry} (rest : Bytes),
    (∀ e ∈ entries, e.idx < 2 ^ 64) →
    readData entries.length (entries.flatMap DataEntry.encode ++ rest) = entries
  | [], _, _ => rfl
  | e :: entries, rest, words => by
    have first := DataEntry.read_encode (words e (by simp))
      (entries.flatMap DataEntry.encode ++ rest)
    have later := readData_encode rest fun d hd => words d (List.mem_cons_of_mem e hd)
    rw [List.length_cons, readData, List.flatMap_cons, List.append_assoc, first]
    simp only [later]

/-- The data entries of an encoding are the delta's. -/
theorem deltaData_encode (d : Delta n) (fits : fitsPages n) (rest : Bytes) :
    deltaData (d.encode ++ rest) = d.data := by
  have word := fits.word
  have nstatus : ((d.encode ++ rest).drop 21).take 8 = le 8 d.status.length :=
    (d.parts.laid rest).nstatus
  have lists : (d.encode ++ rest).drop (29 + d.status.length * 9) =
      le 8 d.data.length ++ (d.data.flatMap DataEntry.encode ++ rest) :=
    (d.parts.laid rest).lists
  unfold deltaData
  rw [nstatus, word_le (Nat.lt_of_le_of_lt d.status_length word), lists, rd_append (le_length 8 _)]
  dsimp only
  rw [word_le (Nat.lt_of_le_of_lt d.data_length word), readData_encode rest d.dataWord]

/-! ## Saving -/

theorem deltaPage_of_lt (h : i < deltaIdxClean) (dirty : Bool) :
    deltaPage (if dirty then i else i + deltaIdxClean) = i := by
  unfold deltaPage
  cases dirty
  · simp [Nat.mod_eq_of_lt h]
  · simp [Nat.mod_eq_of_lt h]

theorem Control.npages_lt (b : Control) : b.npages < deltaIdxClean := by
  have fits := b.fitsPages
  unfold MiniBox.fitsPages pageSize at fits
  unfold deltaIdxClean
  omega

theorem Block.statEntries_ascend (b : Block) : Ascending StatusEntry.idx b.statEntries :=
  List.pairwise_map.mpr (List.pairwise_lt_range.filter _)

theorem Block.dataEntries_ascend (b : Block) : Ascending DataEntry.page b.dataEntries := by
  refine List.pairwise_map.mpr ?_
  refine List.Pairwise.imp_of_mem ?_ (List.pairwise_lt_range.filter _)
  intro i j hi hj lt
  simp only [List.mem_filter, List.mem_range] at hi hj
  have small := b.npages_lt
  simp only [DataEntry.page]
  rw [deltaPage_of_lt (by omega), deltaPage_of_lt (by omega)]
  exact lt

theorem Block.statEntries_inside (b : Block) : ∀ e ∈ b.statEntries, e.idx < b.npages := by
  intro e member
  obtain ⟨i, listed, rfl⟩ := List.mem_map.mp member
  exact List.mem_range.mp (List.mem_filter.mp listed).1

theorem Block.dataEntries_inside (b : Block) : ∀ e ∈ b.dataEntries, e.page < b.npages := by
  intro e member
  obtain ⟨i, listed, rfl⟩ := List.mem_map.mp member
  have inside := List.mem_range.mp (List.mem_filter.mp listed).1
  have small := b.npages_lt
  rw [DataEntry.page, deltaPage_of_lt (by omega)]
  exact inside

theorem Block.dataEntries_word (b : Block) : ∀ e ∈ b.dataEntries, e.idx < 2 ^ 64 := by
  intro e member
  obtain ⟨i, listed, rfl⟩ := List.mem_map.mp member
  have inside := List.mem_range.mp (List.mem_filter.mp listed).1
  have small := b.npages_lt
  have twice : deltaIdxClean + deltaIdxClean = 2 ^ 64 := by decide
  dsimp only
  split_ifs <;> omega

/-- The two lists of the open epoch, as a delta. -/
def Block.delta (b : Block) : Delta b.npages where
  status := b.statEntries
  data := b.dataEntries
  statusAscends := b.statEntries_ascend
  dataAscends := b.dataEntries_ascend
  statusInside := b.statEntries_inside
  dataInside := b.dataEntries_inside
  dataWord := b.dataEntries_word

theorem countBelow_eq_length (n : Nat) (f : Nat → Bool) :
    countBelow n f = ((List.range n).filter f).length := by
  rw [countBelow, List.countP_eq_length_filter]

/-- What `delta_save` writes is the encoding of the epoch's lists. -/
theorem Block.deltaSave_encode (h : b.Recorded) (active : b.epochActive = true) : b.deltaSave true =
      (.ok b.getHotEpoch.delta.encode, b.getHotEpoch.heatWrittenPages) := by
  have looked : b.getHotEpoch.Recorded :=
    h.onPages (Nat.le_of_eq (Nat.zero_add _)) getHotEpochPage_faithful
  have nstat : b.getHotEpoch.shared.epochNstat = b.getHotEpoch.statEntries.length := by
    rw [looked.nstat, countBelow_eq_length, statEntries, List.length_map]
  have ndirty : b.getHotEpoch.shared.epochNdirty = b.getHotEpoch.dataEntries.length := by
    rw [looked.ndirty, countBelow_eq_length, dataEntries, List.length_map]
  unfold deltaSave
  rw [if_neg (by simp [active])]
  simp only [Bool.not_true, Bool.false_eq_true, if_false, nstat, ndirty]
  rfl

/-! ## Applying -/

/-- An entry of a list is applied when its page is one of the machine's, and refused otherwise. -/
def Load.Reads {α : Type} (one : Load → Nat → Load × Option Errno) (encode : α → Bytes)
    (idx page : α → Nat) (f : Pending → α → Pending) : Prop :=
  ∀ {l : Load} {e : α} {rest : Bytes} (k : Nat), l.rest = encode e ++ rest → idx e < 2 ^ 64 →
    one l k = if l.block.npages ≤ page e then (l, some .einval) else (⟨f l.pending e, rest⟩, none)

theorem Load.statusEntry_reads :
    Reads statusEntry StatusEntry.encode StatusEntry.idx StatusEntry.idx Pending.applyStatus := by
  intro l e rest k stream word
  have one : rd 1 ([e.status] ++ rest) = some ([e.status], rest) :=
    rd_append List.length_singleton rest
  unfold statusEntry
  rw [stream, StatusEntry.encode, List.append_assoc, rd_append (le_length 8 _)]
  dsimp only
  rw [one]
  dsimp only
  rw [word_le word, l.noteChange_eq e.idx (noteStatus e.idx _)]
  rfl

theorem Load.dataEntry_reads :
    Reads dataEntry DataEntry.encode DataEntry.idx DataEntry.page Pending.applyData := by
  intro l e rest k stream word
  unfold dataEntry
  rw [stream, DataEntry.encode, List.append_assoc, rd_append (le_length 8 _)]
  dsimp only
  rw [word_le word, readPage_append]
  dsimp only
  rw [l.onPage_onPage]
  have noted := l.noteChange_eq e.page (fun x => deltaWrite e.clean e.bytes (maybeSnapshot x)) rest
  exact congrArg (fun m => if l.block.npages ≤ e.page then (l, some Errno.einval) else (m, none))
    noted

/-- A list is applied entry by entry, and refused at its first page out of range. -/
theorem Load.Reads.list {α : Type} {one : Load → Nat → Load × Option Errno} {encode : α → Bytes}
    {idx page : α → Nat} {f : Pending → α → Pending} (reads : Reads one encode idx page f)
    (control : ∀ s e, (f s e).block.toControl = s.block.toControl) :
    ∀ {entries : List α} {l : Load} {k : Nat}, l.rest = entries.flatMap encode ++ rest →
    (∀ e ∈ entries, idx e < 2 ^ 64) →
    ((∀ e ∈ entries, page e < l.block.npages) →
      untilStop one entries.length k l = (⟨entries.foldl f l.pending, rest⟩, none)) ∧
    ((∃ e ∈ entries, l.block.npages ≤ page e) →
      (untilStop one entries.length k l).2 = some .einval)
  | [], l, k, stream, _ => ⟨fun _ => Prod.ext (Load.ext rfl stream) rfl, by simp⟩
  | e :: entries, l, k, stream, words => by
    obtain ⟨word, words⟩ := List.forall_mem_cons.mp words
    have first := reads k (stream.trans (by rw [List.flatMap_cons, List.append_assoc])) word
    have later := @list α one encode idx page f reads control entries ⟨f l.pending e, _⟩ (k + 1)
      rfl words
    rw [List.length_cons, untilStop, first, List.forall_mem_cons, List.exists_mem_cons_iff]
    simp only [Load.block, control] at later
    by_cases inside : page e < l.block.npages
    · rw [if_neg (Nat.not_le.mpr inside)]
      exact ⟨fun all => later.1 all.2, fun outside =>
        later.2 (outside.resolve_left (Nat.not_le.mpr inside))⟩
    · rw [if_pos (Nat.not_lt.mp inside)]
      exact ⟨fun all => absurd all.1 inside, fun _ => rfl⟩

/-- The two lists of a delta. -/
theorem Load.statuses_read {k : Nat} (stream : l.rest = status.flatMap StatusEntry.encode ++ rest)
    (words : ∀ e ∈ status, e.idx < 2 ^ 64) :
    ((∀ e ∈ status, e.idx < l.block.npages) → untilStop statusEntry status.length k l =
      (⟨status.foldl Pending.applyStatus l.pending, rest⟩, none)) ∧
    ((∃ e ∈ status, l.block.npages ≤ e.idx) →
      (untilStop statusEntry status.length k l).2 = some .einval) :=
  statusEntry_reads.list (fun s _ => s.change_toControl _ _) stream words

theorem Load.datas_read {k : Nat} (stream : l.rest = data.flatMap DataEntry.encode ++ rest)
    (words : ∀ e ∈ data, e.idx < 2 ^ 64) :
    ((∀ e ∈ data, e.page < l.block.npages) → untilStop dataEntry data.length k l =
      (⟨data.foldl Pending.applyData l.pending, rest⟩, none)) ∧
    ((∃ e ∈ data, l.block.npages ≤ e.page) →
      (untilStop dataEntry data.length k l).2 = some .einval) :=
  dataEntry_reads.list (fun s _ => s.change_toControl _ _) stream words

theorem Pending.applyStatuses_toControl (s : Pending) (entries : List StatusEntry) :
    (entries.foldl applyStatus s).block.toControl = s.block.toControl := by
  induction entries generalizing s with
  | nil => rfl
  | cons e rest ih => rw [List.foldl_cons, ih, applyStatus, change_toControl]

theorem Block.readDeltaHeader_encode (pages : b.npages = n) (word : nstatus < 2 ^ 64) (ndata : Nat)
    (status : List StatusEntry) (data : List DataEntry) (rest : Bytes) :
    b.readDeltaHeader (encodeDelta n nstatus ndata status data ++ rest) =
      .ok (nstatus, status.flatMap StatusEntry.encode ++
        (le 8 ndata ++ (data.flatMap DataEntry.encode ++ rest))) := by
  subst pages
  unfold readDeltaHeader
  rw [encodeDelta_append, rd_append (show deltaMagic.length = 13 from rfl)]
  simp only [ne_eq, not_true_eq_false, if_false, rd_append (le_length 8 _),
    word_le (b.fitsPages).word, word_le word]

/-- The machine a delta of `n` pages leaves: its statuses, then its data, each list's
last run closed. -/
def Block.applied {n : Nat} (b : Block) (d : Delta n) : Block :=
  (d.data.foldl Pending.applyData
    ⟨(d.status.foldl Pending.applyStatus
      ⟨{ b with loadTouched := true }, none⟩).close, none⟩).close.epochClear

/-- Two lists of pages of this machine behind their counts are applied entry by entry, in
whatever order they stand, and they are all that is read. -/
theorem Block.deltaApply_lists (is_sealed : b.isSealed = true) (nstatus : status.length < 2 ^ 64)
    (ndata : data.length < 2 ^ 64) (statusInside : ∀ e ∈ status, e.idx < b.npages)
    (dataInside : ∀ e ∈ data, e.page < b.npages ∧ e.idx < 2 ^ 64) (rest : Bytes) :
    b.deltaApply (encodeDelta b.npages status.length data.length status data ++ rest) =
      (.ok rest, (data.foldl Pending.applyData
        ⟨(status.foldl Pending.applyStatus
          ⟨{ b with loadTouched := true }, none⟩).close, none⟩).close.epochClear) := by
  have header : readDeltaHeader { b with loadTouched := false }
      (encodeDelta b.npages status.length data.length status data ++ rest) = _ :=
    readDeltaHeader_encode rfl nstatus data.length status data rest
  have statuses : untilStop Load.statusEntry status.length 0
      ⟨⟨{ b with loadTouched := true }, none⟩, status.flatMap StatusEntry.encode ++
        (le 8 data.length ++ (data.flatMap DataEntry.encode ++ rest))⟩ = _ :=
    (Load.statuses_read rfl fun e member =>
      Nat.lt_trans (statusInside e member) (b.fitsPages).word).1 statusInside
  unfold deltaApply
  rw [if_neg (by simp [is_sealed])]
  dsimp only
  rw [header]
  simp only [Load.deltaLists, statuses, rd_append (le_length 8 _), word_le ndata]
  rw [(Load.datas_read rfl fun e member => (dataInside e member).2).1]
  intro e member
  simp only [Load.block, Pending.close_toControl, Pending.applyStatuses_toControl]
  exact (dataInside e member).1

/-- A delta of this machine is applied entry by entry, and its bytes are all that is
read. -/
theorem Block.deltaApply_encode (is_sealed : b.isSealed = true) (pages : b.npages = n) (d : Delta n)
    (rest : Bytes) :
    b.deltaApply (d.encode ++ rest) = (.ok rest, b.applied d) := by
  subst pages
  have word := (b.fitsPages).word
  exact deltaApply_lists is_sealed (Nat.lt_of_le_of_lt d.status_length word)
    (Nat.lt_of_le_of_lt d.data_length word) d.statusInside
    (fun e member => ⟨d.dataInside e member, d.dataWord e member⟩) rest

end MiniBox
