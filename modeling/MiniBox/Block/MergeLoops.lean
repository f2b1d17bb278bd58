import MiniBox.Block.Delta

/-!
# The loops of the two composers

The source merges two lists four times: the streaming composer counts over its arrays of indices
and writes from its arrays, the other one counts and writes over packed entries where they lie.
Each of the four loops is `mergeLater` (`mergedCount_eq`, `partsWrite_eq`, `viewMerged_eq`,
`viewWrite_eq`), so each composer writes the encoding of the merge: by page in place, and by
index from the arrays, which is the same while no index carries the flag.
-/

namespace MiniBox

open Lib

/-- A buffer read at the next offset. -/
theorem drop_next {buf head tail : Bytes} {at_ width : Nat} (here : buf.drop at_ = head ++ tail)
    (length : head.length = width) :
    (buf.drop at_).take width = head ∧ buf.drop (at_ + width) = tail := by
  constructor
  · rw [here, List.take_left' length]
  · rw [← List.drop_drop, here, List.drop_left' length]

/-! ## The loops -/

section Loops

variable {α : Type} {key idx : α → Nat} {encode : α → Bytes} {xs ys : List α} {fuel i j n : Nat}

theorem foldr_encode (xs : List α) :
    xs.foldr (fun x rest => encode x ++ rest) [] = xs.flatMap encode := by
  induction xs with
  | nil => rfl
  | cons x xs ih => rw [List.foldr_cons, ih, List.flatMap_cons]

theorem mergedCount_end {a b : List Nat} (past : a[i]? = none ∨ b[j]? = none) :
    mergedCount a b fuel i j n = n + (a.length - i) + (b.length - j) := by
  cases fuel with
  | zero => rfl
  | succ fuel =>
    rw [mergedCount]
    rcases past with past | past
    · rw [past]
    · rw [past]
      cases a[i]? <;> rfl

/-- The place of a walk through an array. -/
theorem drop_map {a : List Nat} (here : a.drop i = xs.map idx) :
    a[i]? = xs.head?.map idx ∧ a.length - i = xs.length := by
  rw [← List.head?_drop, ← List.length_drop, here, List.head?_map, List.length_map]
  exact ⟨rfl, rfl⟩

theorem drop_tail {β : Type} {a rest : List β} {x : β} (here : a.drop i = x :: rest) :
    a.drop (i + 1) = rest := by
  rw [← List.tail_drop, here, List.tail_cons]

theorem mergedCount_eq {a b : List Nat} (page : ∀ x, key x = deltaPage (idx x))
    (hereA : a.drop i = xs.map idx) (hereB : b.drop j = ys.map idx)
    (enough : xs.length + ys.length ≤ fuel) :
    mergedCount a b fuel i j n = n + (mergeLater key xs ys).length := by
  have loop := @mergeLater_loop _ key _ (fun i xs => a.drop i = xs.map idx)
    (fun j ys => b.drop j = ys.map idx) (fun _ count n => count (n + 1)) id (mergedCount a b)
    ?_ ?_ drop_tail drop_tail fuel i j xs ys hereA hereB enough
  · rw [loop, foldr_count]
  · intro i j hereA hereB
    funext n
    rw [mergedCount, (drop_map hereA).2, (drop_map hereB).2]
    rfl
  · intro fuel i j xs ys hereA hereB
    funext n
    obtain ⟨atA, leftA⟩ := drop_map hereA
    obtain ⟨atB, leftB⟩ := drop_map hereB
    cases xs with
    | nil =>
      rw [mergedCount_end (.inl atA), leftA, leftB]
      cases ys with
      | nil => rfl
      | cons y ys =>
        rw [mergeTurn, mergedCount_end (.inl atA), leftA, (drop_map (drop_tail hereB)).2]
        simp only [List.length_cons, List.length_nil]
        omega
    | cons x xs =>
      cases ys with
      | nil =>
        rw [mergedCount_end (.inr atB), leftA, leftB, mergeTurn, mergedCount_end (.inr atB), leftB,
          (drop_map (drop_tail hereA)).2]
        simp only [List.length_cons, List.length_nil]
        omega
      | cons y ys =>
        rw [mergedCount, atA, atB, mergeTurn]
        dsimp only [List.head?_cons, Option.map_some]
        simp only [page]
        split_ifs <;> rfl

theorem partsWrite_eq {a b : List α} (hereA : a.drop i = xs) (hereB : b.drop j = ys)
    (enough : xs.length + ys.length ≤ fuel) :
    partsWrite key encode a b fuel i j = (mergeLater key xs ys).flatMap encode := by
  have loop := @mergeLater_loop _ key _ (fun i xs => a.drop i = xs) (fun j ys => b.drop j = ys)
    (fun x rest => encode x ++ rest) [] (partsWrite key encode a b) (fun _ _ => rfl) ?_
    drop_tail drop_tail fuel i j xs ys hereA hereB enough
  · rw [loop, foldr_encode]
  · intro fuel i j xs ys hereA hereB
    rw [partsWrite, ← List.head?_drop, ← List.head?_drop, hereA, hereB]
    rcases xs with _ | ⟨x, xs⟩ <;> rcases ys with _ | ⟨y, ys⟩
    · rfl
    · rfl
    · rfl
    · dsimp only [List.head?_cons, mergeTurn]
      split_ifs <;> first | rfl | omega

/-- From place `i` on, a packed list has the entries `xs` left. -/
structure Packed (encode : α → Bytes) (stride : Nat) (a : Bytes) (na i : Nat) (xs : List α) :
    Prop where
  count : na = i + xs.length
  bytes : ∃ rest, a.drop (i * stride) = xs.flatMap encode ++ rest

/-- The entries of a packed list: how wide they are, and where their page stands. -/
structure Entries (encode : α → Bytes) (key : α → Nat) (stride : Nat) : Prop where
  width : ∀ x, (encode x).length = stride
  page : ∀ x rest, viewIdx (encode x ++ rest) = key x

section Views

variable {stride na nb : Nat} {a b : Bytes} {x : α}

theorem Packed.ended (h : Packed encode stride a na i []) : na = i := h.count

theorem Packed.head (h : Packed encode stride a na i (x :: xs))
    (entries : Entries encode key stride) :
    i < na ∧ viewIdx (a.drop (i * stride)) = key x ∧ (a.drop (i * stride)).take stride = encode x ∧
      Packed encode stride a na (i + 1) xs := by
  obtain ⟨count, rest, bytes⟩ := h
  rw [List.length_cons] at count
  rw [List.flatMap_cons, List.append_assoc] at bytes
  obtain ⟨first, next⟩ := drop_next bytes (entries.width x)
  refine ⟨by omega, ?_, first, by omega, rest, ?_⟩
  · rw [bytes, entries.page]
  · rw [Nat.succ_mul, next]

/-- A loop over two packed lists. -/
theorem packed_loop {β : Type} {put : α → β → β} {done : β} {loop : Nat → Nat → Nat → β}
    (entries : Entries encode key stride) (zero : ∀ i j, loop 0 i j = done)
    (turn : ∀ {fuel i j xs ys}, Packed encode stride a na i xs → Packed encode stride b nb j ys →
      loop (fuel + 1) i j = mergeTurn key put done (loop fuel) i j xs ys)
    (hereA : Packed encode stride a na i xs) (hereB : Packed encode stride b nb j ys)
    (enough : xs.length + ys.length ≤ fuel) :
    loop fuel i j = (mergeLater key xs ys).foldr put done :=
  mergeLater_loop (fun _ _ => zero _ _) turn (fun here => (here.head entries).2.2.2)
    (fun here => (here.head entries).2.2.2) hereA hereB enough

theorem viewMerged_eq (entries : Entries encode key stride) (hereA : Packed encode stride a na i xs)
    (hereB : Packed encode stride b nb j ys) (enough : xs.length + ys.length ≤ fuel) :
    viewMerged a na b nb stride fuel i j n = n + (mergeLater key xs ys).length := by
  have loop := @packed_loop α key encode xs ys fuel i j stride na nb a b _
    (fun _ count n => count (n + 1)) id (viewMerged a na b nb stride) entries (fun _ _ => rfl) ?_
    hereA hereB enough
  · rw [loop, foldr_count]
  · intro fuel i j xs ys hereA hereB
    funext n
    rw [viewMerged]
    rcases xs with _ | ⟨x, xs⟩ <;> rcases ys with _ | ⟨y, ys⟩
    · rw [if_neg (by have := hereA.ended; have := hereB.ended; omega)]
      rfl
    · rw [if_pos (.inr (hereB.head entries).1), if_pos (by have := hereA.ended; omega)]
      rfl
    · have below := (hereA.head entries).1
      rw [if_pos (.inl below), if_neg (by omega), if_pos (by have := hereB.ended; omega)]
      rfl
    · obtain ⟨belowA, pageA, -, -⟩ := hereA.head entries
      obtain ⟨belowB, pageB, -, -⟩ := hereB.head entries
      simp only [pageA, pageB, mergeTurn]
      split_ifs <;> first | rfl | omega

theorem viewWrite_eq (entries : Entries encode key stride) (hereA : Packed encode stride a na i xs)
    (hereB : Packed encode stride b nb j ys) (enough : xs.length + ys.length ≤ fuel) :
    viewWrite a na b nb stride fuel i j = (mergeLater key xs ys).flatMap encode := by
  have loop := @packed_loop α key encode xs ys fuel i j stride na nb a b _
    (fun x rest => encode x ++ rest) [] (viewWrite a na b nb stride) entries (fun _ _ => rfl) ?_
    hereA hereB enough
  · rw [loop, foldr_encode]
  · intro fuel i j xs ys hereA hereB
    rw [viewWrite]
    rcases xs with _ | ⟨x, xs⟩ <;> rcases ys with _ | ⟨y, ys⟩
    · rw [if_neg (by have := hereA.ended; have := hereB.ended; omega)]
      rfl
    · have endA := hereA.ended
      obtain ⟨below, -, first, -⟩ := hereB.head entries
      simp only [first, mergeTurn]
      split_ifs <;> first | rfl | omega
    · have endB := hereB.ended
      obtain ⟨below, -, first, -⟩ := hereA.head entries
      simp only [first, mergeTurn]
      split_ifs <;> first | rfl | omega
    · obtain ⟨belowA, pageA, firstA, -⟩ := hereA.head entries
      obtain ⟨belowB, pageB, firstB, -⟩ := hereB.head entries
      simp only [pageA, pageB, firstA, firstB, mergeTurn]
      split_ifs <;> first | rfl | omega

end Views

end Loops

/-! ## Deltas in memory -/

theorem word_le {v : Nat} (h : v < 2 ^ 64) : leVal (le 8 v) = v := leVal_le h

theorem deltaPage_word (idx : Nat) : deltaPage (leVal (le 8 idx)) = deltaPage idx := by
  rw [leVal_le_mod]
  exact Nat.mod_mod_of_dvd idx (by decide)

theorem viewIdx_le (idx : Nat) (rest : Bytes) : viewIdx (le 8 idx ++ rest) = deltaPage idx := by
  rw [viewIdx, List.take_left' (le_length 8 idx), deltaPage_word]

theorem encodeDelta_append {npages nstatus ndata : Nat} {status : List StatusEntry}
    {data : List DataEntry} (rest : Bytes) :
    encodeDelta npages nstatus ndata status data ++ rest =
      deltaMagic ++ (le 8 npages ++ (le 8 nstatus ++ (status.flatMap StatusEntry.encode ++
        (le 8 ndata ++ (data.flatMap DataEntry.encode ++ rest))))) := by
  simp [encodeDelta, List.append_assoc]

theorem StatusEntry.encode_length (e : StatusEntry) : e.encode.length = statusStride := by
  simp [encode, statusStride]

theorem DataEntry.encode_length (e : DataEntry) : e.encode.length = dataStride := by
  have := e.bytes.property
  simp [encode, this, dataStride]

theorem StatusEntry.entries : Entries encode page statusStride where
  width := encode_length
  page e rest := by rw [encode, List.append_assoc, viewIdx_le, page]

theorem DataEntry.entries : Entries encode page dataStride where
  width := encode_length
  page e rest := by rw [encode, List.append_assoc, viewIdx_le, page]

namespace DeltaParts

variable {a b d : DeltaParts} {rest restA restB : Bytes}

/-- A delta with the counts its lists have. -/
def encode (d : DeltaParts) : Bytes :=
  encodeDelta d.npages d.status.length d.data.length d.status d.data

/-- The later delta's entries over the earlier one's. -/
def merged (statusKey : StatusEntry → Nat) (a b : DeltaParts) : DeltaParts :=
  ⟨a.npages, mergeLater statusKey a.status b.status, mergeLater DataEntry.page a.data b.data⟩

/-- What the streaming composer writes, where no status index carries the flag. -/
theorem compose_merged (pageA : ∀ e ∈ a.status, e.page = e.idx)
    (pageB : ∀ e ∈ b.status, e.page = e.idx) :
    a.compose b = (a.merged StatusEntry.idx b).encode := by
  have nstatus := @mergedCount_eq _ StatusEntry.page StatusEntry.idx a.status b.status _ 0 0 0 _ _
    (fun _ => rfl) rfl rfl (Nat.le_refl _)
  have ndata := @mergedCount_eq _ DataEntry.page DataEntry.idx a.data b.data _ 0 0 0 _ _
    (fun _ => rfl) rfl rfl (Nat.le_refl _)
  have status := @partsWrite_eq _ StatusEntry.idx StatusEntry.encode a.status
    b.status _ 0 0 _ _ rfl rfl (Nat.le_refl _)
  have data := @partsWrite_eq _ DataEntry.page DataEntry.encode a.data
    b.data _ 0 0 _ _ rfl rfl (Nat.le_refl _)
  rw [mergeLater_congr pageA pageB] at nstatus
  rw [Nat.zero_add] at nstatus ndata
  rw [compose, nstatus, ndata, status, data]
  rfl

/-! ## Deltas in a buffer -/

/-- The delta at the start of a buffer, opened. -/
def view (d : DeltaParts) (rest : Bytes) : DeltaView :=
  ⟨d.encode ++ rest, d.npages, d.status.length, d.data.length, 29,
    29 + d.status.length * statusStride + 8⟩

theorem encode_length (d : DeltaParts) : d.encode.length =
    29 + d.status.length * statusStride + 8 + d.data.length * dataStride := by
  have magic : deltaMagic.length = 13 := rfl
  unfold encode encodeDelta
  simp only [List.length_append, le_length, magic,
    length_flatMap_width fun e _ => StatusEntry.encode_length e,
    length_flatMap_width fun e _ => DataEntry.encode_length e]

/-- Where the parts of a delta stand. -/
structure Laid (d : DeltaParts) (rest buf : Bytes) : Prop where
  magic : buf.take 13 = deltaMagic
  npages : (buf.drop 13).take 8 = le 8 d.npages
  nstatus : (buf.drop 21).take 8 = le 8 d.status.length
  status : ∃ more, buf.drop 29 = d.status.flatMap StatusEntry.encode ++ more
  lists : buf.drop (29 + d.status.length * statusStride) =
    le 8 d.data.length ++ (d.data.flatMap DataEntry.encode ++ rest)

theorem laid (d : DeltaParts) (rest : Bytes) : d.Laid rest (d.encode ++ rest) := by
  have whole : (d.encode ++ rest).drop 0 = _ := encodeDelta_append rest
  obtain ⟨magic, after0⟩ := drop_next whole (show deltaMagic.length = 13 from rfl)
  obtain ⟨npages, after1⟩ := drop_next after0 (le_length 8 _)
  obtain ⟨nstatus, after2⟩ := drop_next after1 (le_length 8 _)
  obtain ⟨-, after3⟩ := drop_next after2
    (length_flatMap_width fun e _ => StatusEntry.encode_length e)
  exact ⟨magic, npages, nstatus, ⟨_, after2⟩, after3⟩

theorem Laid.data {buf : Bytes} (h : d.Laid rest buf) :
    (buf.drop (29 + d.status.length * statusStride)).take 8 = le 8 d.data.length ∧
      buf.drop (29 + d.status.length * statusStride + 8) =
        d.data.flatMap DataEntry.encode ++ rest :=
  drop_next h.lists (le_length 8 _)

/-- What the composer over buffers writes. -/
theorem view_compose : (a.view restA).compose (b.view restB) =
    (a.merged StatusEntry.page b).encode := by
  have statusA : Packed StatusEntry.encode statusStride ((a.view restA).buf.drop 29) _ 0 a.status :=
    ⟨(Nat.zero_add _).symm, (a.laid restA).status⟩
  have statusB : Packed StatusEntry.encode statusStride ((b.view restB).buf.drop 29) _ 0 b.status :=
    ⟨(Nat.zero_add _).symm, (b.laid restB).status⟩
  have dataA : Packed DataEntry.encode dataStride ((a.view restA).buf.drop (a.view restA).data) _ 0
      a.data := ⟨(Nat.zero_add _).symm, restA, (a.laid restA).data.2⟩
  have dataB : Packed DataEntry.encode dataStride ((b.view restB).buf.drop (b.view restB).data) _ 0
      b.data := ⟨(Nat.zero_add _).symm, restB, (b.laid restB).data.2⟩
  have nstatus := viewMerged_eq StatusEntry.entries (n := 0) statusA statusB (Nat.le_refl _)
  have ndata := viewMerged_eq DataEntry.entries (n := 0) dataA dataB (Nat.le_refl _)
  have status := viewWrite_eq StatusEntry.entries statusA statusB (Nat.le_refl _)
  have data := viewWrite_eq DataEntry.entries dataA dataB (Nat.le_refl _)
  rw [Nat.zero_add] at nstatus ndata
  unfold DeltaView.compose
  dsimp only [view] at nstatus ndata status data ⊢
  rw [nstatus, ndata, status, data]
  rfl

theorem viewOpen_encode (npages : d.npages < 2 ^ 64) (nstatus : d.status.length ≤ d.npages)
    (ndata : d.data.length ≤ d.npages) (rest : Bytes) :
    viewOpen (d.encode ++ rest) = .ok (d.view rest) := by
  have laid := d.laid rest
  have total : (d.encode ++ rest).length =
      29 + d.status.length * statusStride + 8 + d.data.length * dataStride + rest.length := by
    rw [List.length_append, d.encode_length]
  unfold view
  generalize d.encode ++ rest = buf at laid total ⊢
  have roomStatus : d.status.length ≤ (buf.length - 29) / statusStride := by
    rw [Nat.le_div_iff_mul_le (by decide)]
    omega
  have roomData : d.data.length ≤
      (buf.length - (29 + d.status.length * statusStride + 8)) / dataStride := by
    rw [Nat.le_div_iff_mul_le (by decide)]
    omega
  unfold viewOpen
  rw [if_neg (by omega)]
  simp only [laid.magic, ne_eq, not_true_eq_false, if_false, laid.npages, laid.nstatus,
    word_le npages, word_le (Nat.lt_of_le_of_lt nstatus npages), gt_iff_lt,
    Nat.not_lt.mpr nstatus, Nat.not_lt.mpr roomStatus, laid.data.1,
    word_le (Nat.lt_of_le_of_lt ndata npages), Nat.not_lt.mpr ndata, Nat.not_lt.mpr roomData]
  rw [if_neg (by omega)]

/-- The composer over buffers, on two deltas of one size. -/
theorem deltaComposeMem_encode (npagesA : a.npages < 2 ^ 64) (same : a.npages = b.npages)
    (nstatusA : a.status.length ≤ a.npages) (ndataA : a.data.length ≤ a.npages)
    (nstatusB : b.status.length ≤ b.npages) (ndataB : b.data.length ≤ b.npages)
    (restA restB : Bytes) :
    deltaComposeMem (a.encode ++ restA) (b.encode ++ restB) =
      .ok ((a.merged StatusEntry.page b).encode, b.encode.length) := by
  unfold deltaComposeMem
  rw [viewOpen_encode npagesA nstatusA ndataA, viewOpen_encode (same ▸ npagesA) nstatusB ndataB]
  simp only [ok_bind, view_compose, b.encode_length]
  simp only [view, same, ne_eq, not_true_eq_false, if_false]

end DeltaParts

end MiniBox
