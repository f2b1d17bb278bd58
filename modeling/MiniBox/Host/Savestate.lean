import MiniBox.Block.Life
import MiniBox.Host.Compose
import MiniBox.Host.Handles

/-!
# A whole machine's state

A state of the machine is the block's state with the program break and the ELF's hash before
it, and the thread set, the open files, the getrandom stream and the end magic after it.
`mb_host_save_state` writes it through a callback.  `mb_host_state_size` says beforehand how
long it will be: it writes what stands around the block's state into two buffers of 1 MiB, and
asks the block for the rest.

The thread set grows with the threads and the waiters, and the table of open files with the
descriptors and the length of their names.  A machine whose tail does not fit the buffer is
announced as 0 bytes, and saved all the same (`Box.stateSize_eq`).
-/

namespace MiniBox

open Lib

/-! ## The parts -/

/-- `SAVE_START`: "ActivatedWaterboxHost_v1". -/
def saveStart : Bytes :=
  [0x41, 0x63, 0x74, 0x69, 0x76, 0x61, 0x74, 0x65, 0x64, 0x57, 0x61, 0x74, 0x65, 0x72, 0x62, 0x6f,
    0x78, 0x48, 0x6f, 0x73, 0x74, 0x5f, 0x76, 0x31]

/-- "FileSystem". -/
def fileSystemMagic : Bytes := [0x46, 0x69, 0x6c, 0x65, 0x53, 0x79, 0x73, 0x74, 0x65, 0x6d]

/-- "FileSystemEnd". -/
def fileSystemEnd : Bytes := fileSystemMagic ++ [0x45, 0x6e, 0x64]

/-- "ElfLoader". -/
def elfLoaderMagic : Bytes := [0x45, 0x6c, 0x66, 0x4c, 0x6f, 0x61, 0x64, 0x65, 0x72]

/-- `FILES_MAGIC`: "OpenFileTable1". -/
def filesMagic : Bytes :=
  [0x4f, 0x70, 0x65, 0x6e, 0x46, 0x69, 0x6c, 0x65, 0x54, 0x61, 0x62, 0x6c, 0x65, 0x31]

/-- `mb_host`, as far as a state of the machine is about it. -/
structure Box extends Host where
  /-- `sealed` of the host, beside the block's own -/
  sealed_ : Bool := false
  elfHash : { bs : Bytes // bs.length = 32 }
  /-- what the last `mb_host_state_size` wrote around the block's state -/
  planHead : Option Bytes := none
  planTail : Option Bytes := none

namespace Box

variable (h : Box)

/-- `mb_host_activate`; the host is active while its block is. -/
def activate : Box := { h with memory := { h.memory with block := h.block.activate } }

/-- `mb_host_deactivate`, unless the host was active before the call. -/
def leave (wasActive : Bool) : Box :=
  if wasActive then h
  else { h with memory := { h.memory with block := { h.block with active := false } } }

/-- What stands before the block's state, in the pieces it is written in. -/
def head : List Bytes :=
  [saveStart, fileSystemMagic, fileSystemEnd, encode64 h.programBreak, elfLoaderMagic,
    h.elfHash.val]

/-- `files_save`. -/
def filesSave : Option (List Bytes) :=
  h.fs.saveHandles.map fun handles => [filesMagic, encode64 h.getrandomState, handles]

/-- `mb_host_save_state`: what it wrote, if it did not fail, and the host. -/
def saveState : Option Bytes × Box :=
  if !h.sealed_ then (none, h)
  else
    let wasActive := h.block.active
    let h := h.activate
    match h.block.saveState with
    | .error _ => (none, h.leave wasActive)
    | .ok memory =>
      match h.threads.save h.context with
      | (none, threads) => (none, ({ h with threads } : Box).leave wasActive)
      | (some set, threads) =>
        let h : Box := { h with threads }
        (h.filesSave.map fun files =>
            h.head.flatten ++ memory ++ set ++ files.flatten ++ saveEnd,
          h.leave wasActive)

end Box

/-! ## The announced size -/

/-- `mb_memsink`. -/
structure Memsink where
  cap : Nat
  bytes : Bytes := []

/-- `memsink_write`. -/
def Memsink.write (s : Memsink) (data : Bytes) : Option Memsink :=
  if s.cap < s.bytes.length + data.length then none else some { s with bytes := s.bytes ++ data }

/-- The pieces one after the other, as far as there is room. -/
def Memsink.writes (s : Memsink) (pieces : List Bytes) : Option Memsink := pieces.foldlM write s

/-- `room` of `host_state_surround`. -/
def surroundRoom : Nat := 1 <<< 20

namespace Box

variable (h : Box)

/-- `host_state_surround`: whether the head and the tail fit their buffers. -/
def stateSurround : Bool × Box :=
  let h : Box := { h with planHead := some [], planTail := some [] }
  match ({ cap := surroundRoom } : Memsink).writes h.head with
  | none => (false, h)
  | some head =>
    let h : Box := { h with planHead := some head.bytes }
    match h.threads.save h.context with
    | (none, threads) => (false, { h with threads })
    | (some set, threads) =>
      let h : Box := { h with threads }
      match h.filesSave.bind fun files =>
          ({ cap := surroundRoom } : Memsink).writes ([set] ++ files ++ [saveEnd]) with
      | none => (false, h)
      | some tail => (true, { h with planTail := some tail.bytes })

/-- `mb_host_state_size`. -/
def stateSize : Nat × Box :=
  if !h.sealed_ then (0, h)
  else
    let wasActive := h.block.active
    match h.activate.stateSurround with
    | (false, h) => (0, h.leave wasActive)
    | (true, h) =>
      let block := h.block.stateSize
      (if block ≠ 0 then (h.planHead.getD []).length + block + (h.planTail.getD []).length else 0,
        h.leave wasActive)

end Box

/-! ## How long the parts are -/

theorem Memsink.writes_eq : ∀ {s : Memsink} (pieces : List Bytes), s.bytes.length ≤ s.cap →
    s.writes pieces =
      if s.cap < s.bytes.length + pieces.flatten.length then none
      else some { s with bytes := s.bytes ++ pieces.flatten }
  | s, [], fits => by
    rw [if_neg (by simpa using fits)]
    simp [writes]
  | s, piece :: pieces, fits => by
    have unfolded : s.writes (piece :: pieces) = (s.write piece).bind fun t => t.writes pieces :=
        rfl
    rw [unfolded, write, List.flatten_cons, List.length_append]
    by_cases full : s.cap < s.bytes.length + piece.length
    · rw [if_pos full, if_pos (by omega)]
      rfl
    · have rest := @writes_eq { s with bytes := s.bytes ++ piece } pieces
        (by dsimp only; rw [List.length_append]; omega)
      dsimp only at rest
      rw [List.length_append, Nat.add_assoc, List.append_assoc] at rest
      rw [if_neg full, Option.bind_some, rest]

/-- An empty buffer takes the pieces when all of them together fit it. -/
theorem Memsink.writes_empty (cap : Nat) (pieces : List Bytes) : ({ cap } : Memsink).writes pieces =
      if cap < pieces.flatten.length then none else some { cap, bytes := pieces.flatten } := by
  have all := @writes_eq { cap } pieces (Nat.zero_le cap)
  simpa only [List.length_nil, Nat.zero_add, List.nil_append] using all

@[simp] theorem encode32_length (v : UInt32) : (encode32 v).length = 4 := le_length 4 _

@[simp] theorem encode64_length (v : UInt64) : (encode64 v).length = 8 := le_length 8 _

/-- The record of a thread set. -/
def Threads.streamSize (t : Threads) : Nat :=
  64 + 72 * t.threads.length + (t.futicies.map fun q => 12 + 4 * q.items.length).sum +
    (if t.spec = 3 then 22 + 8 * t.deadlines.length else 0)

theorem GThread.encode_length (g : GThread) : g.encode.length = 72 := by
  simp [encode]

theorem encodeQueue_length (q : Queue UInt64 UInt32) :
    (encodeQueue q).length = 12 + 4 * q.items.length := by
  rw [encodeQueue, List.length_append, List.length_append, encode64_length, le_length,
    length_flatMap_width fun tid _ => encode32_length tid]
  omega

theorem Threads.encode_length (t : Threads) (c : Context) : (t.encode c).length = t.streamSize := by
  have set : (t.threads.flatMap GThread.encode).length = t.threads.length * 72 :=
    length_flatMap_width fun g _ => g.encode_length
  have queues : (t.futicies.flatMap encodeQueue).length =
      (t.futicies.map fun q => 12 + 4 * q.items.length).sum := by
    simp only [List.length_flatMap, encodeQueue_length]
  have ends : (t.deadlines.flatMap encode64).length = t.deadlines.length * 8 :=
    length_flatMap_width fun deadline _ => encode64_length deadline
  unfold encode streamSize
  simp only [List.length_append, le_length, encode32_length, set, queues]
  split_ifs
  · simp only [List.length_append, encode64_length, ends, show fpuMagic.length = 14 from rfl,
      show clockMagic.length = 14 from rfl, show setMagic.length = 14 from rfl]
    omega
  · simp only [List.length_nil, show fpuMagic.length = 14 from rfl,
      show setMagic.length = 14 from rfl]
    omega

theorem Threads.settle_streamSize (t : Threads) (c : Context) :
    (t.settle c).streamSize = t.streamSize := by
  unfold streamSize settle onThread
  simp

/-- The record of a handle. -/
def Files.handleSize (fs : Files) (o : OpenHandle) : Nat := 16 + (fs.record o).name.length % 2 ^ 32

theorem Files.HandleRecord.encode_length (r : HandleRecord) :
    r.encode.length = 16 + r.name.length % 2 ^ 32 := by
  have cut : (UInt32.ofNat r.name.length).toNat = r.name.length % 2 ^ 32 := UInt32.toNat_ofNat'
  simp only [encode, List.length_append, encode32_length, encode64_length, List.length_take, cut,
    Nat.min_eq_left (Nat.mod_le _ _)]
  omega

/-- The record of the open files. -/
def Files.streamSize (fs : Files) : Nat := 4 + (fs.handles.map fs.handleSize).sum

theorem Files.Sound.saveHandles_length {fs : Files} {names : Int32 → Option Bytes}
    (sound : fs.Sound names) {bytes : Bytes} (saved : fs.saveHandles = some bytes) :
    bytes.length = fs.streamSize := by
  rw [sound.saveHandles] at saved
  cases saved
  have records : (fs.records.flatMap HandleRecord.encode).length =
      (fs.inOrder.map fs.handleSize).sum := by
    rw [List.length_flatMap, Files.records, List.map_map]
    exact congrArg List.sum (List.map_congr_left fun o _ => (fs.record o).encode_length)
  rw [List.length_append, encode32_length, records, (fs.inOrder_perm.map fs.handleSize).sum_nat]
  rfl

/-- The size of a block's state is what the block announces. -/
theorem Block.saveState_length {b : Block} (recorded : b.Recorded) (hash : b.hash.length = 32)
    {bytes : Bytes} (saved : b.saveState = .ok bytes) :
    b.stateSize = bytes.length ∧ b.stateSize ≠ 0 := by
  unfold saveState at saved
  split_ifs at saved with unsealed
  cases saved
  have pages : b.statePages = b.savedPages := by
    unfold statePages savedPages
    refine List.filter_congr fun i _ => ?_
    rw [(recorded.consistent i).dirty, Bool.and_comm]
  have data : (b.savedPages.flatMap fun i => (b.page i).mem.val).length =
      b.savedPages.length * pageSize :=
    length_flatMap_width fun i _ => (b.page i).mem.property
  have header : b.stateHeader.length = b.stateHeaderSize := by
    simp only [stateHeader, Control.stateHeaderSize, List.length_append, hash, b.statusBytes_length,
      b.dirtyBytes_length, b.addr.bytes_length, show stateMagic.length = 20 from rfl]
    omega
  unfold stateSize
  rw [if_neg unsealed, List.length_append, header, data, pages]
  refine ⟨rfl, ?_⟩
  unfold Control.stateHeaderSize
  omega

namespace Box

variable {h : Box} {names : Int32 → Option Bytes} {files : List Bytes} {bytes : Bytes}

/-- What stands after the block's state: the thread set, the open files with their magic and the
getrandom stream, the end magic. -/
def tailSize (h : Box) : Nat := h.threads.streamSize + (22 + h.fs.streamSize) + 36

theorem head_length (h : Box) : h.head.flatten.length = 96 := by
  have hash := h.elfHash.property
  simp [head, hash, saveStart, fileSystemMagic, fileSystemEnd, elfLoaderMagic]

theorem filesSave_length (sound : h.fs.Sound names) (saved : h.filesSave = some files) :
    files.flatten.length = 22 + h.fs.streamSize := by
  obtain ⟨handles, wrote, rfl⟩ := Option.map_eq_some_iff.mp saved
  have length := sound.saveHandles_length wrote
  simp [filesMagic]
  omega

/-- When a state is saved, and the parts it is made of. -/
theorem saveState_parts : h.saveState.1 = some bytes ↔
    h.sealed_ = true ∧ h.threads.activeTid = 1 ∧ ∃ memory files,
      h.block.activate.saveState = .ok memory ∧ h.filesSave = some files ∧
      bytes = h.head.flatten ++ memory ++ (h.threads.settle h.context).encode h.context ++
        files.flatten ++ saveEnd := by
  have threads : h.activate.threads.save h.activate.context = h.threads.save h.context := rfl
  have block : h.activate.block = h.block.activate := rfl
  unfold saveState
  constructor
  · intro saved
    cases is_sealed : h.sealed_ with
    | false =>
      rw [is_sealed] at saved
      cases saved
    | true =>
      rw [is_sealed, if_neg (by decide)] at saved
      dsimp only at saved
      split at saved
      · cases saved
      next memory wrote =>
        rw [threads] at saved
        unfold Threads.save at saved
        by_cases active : h.threads.activeTid = 1
        · rw [if_neg (not_not.mpr active)] at saved
          obtain ⟨files, listed, rfl⟩ := Option.map_eq_some_iff.mp saved
          exact ⟨rfl, active, memory, files, wrote, listed, rfl⟩
        · rw [if_pos active] at saved
          cases saved
  · rintro ⟨is_sealed, active, memory, files, wrote, listed, rfl⟩
    rw [is_sealed, if_neg (by decide)]
    dsimp only
    rw [block, wrote]
    dsimp only
    rw [threads]
    unfold Threads.save
    rw [if_neg (not_not.mpr active)]
    exact Option.map_eq_some_iff.mpr ⟨files, listed, rfl⟩

/-- The tail as `host_state_surround` writes it. -/
def tail (h : Box) (files : List Bytes) : List Bytes :=
  [(h.threads.settle h.context).encode h.context] ++ files ++ [saveEnd]

theorem tail_length (sound : h.fs.Sound names) (listed : h.filesSave = some files) :
    (h.tail files).flatten.length = h.tailSize := by
  have length := filesSave_length sound listed
  simp only [tail, List.flatten_append, List.flatten_cons, List.flatten_nil, List.append_nil,
    List.length_append, Threads.encode_length, Threads.settle_streamSize, length,
    show saveEnd.length = 36 from rfl, tailSize]

/-- The head always fits; the tail does when it is no longer than the buffer. -/
theorem stateSurround_eq (active : h.threads.activeTid = 1) {files : List Bytes}
    (listed : h.filesSave = some files) :
    h.stateSurround =
      if surroundRoom < (h.tail files).flatten.length then
        (false, { h with threads := h.threads.settle h.context
                         planHead := some h.head.flatten, planTail := some [] })
      else
        (true, { h with threads := h.threads.settle h.context
                        planHead := some h.head.flatten
                        planTail := some (h.tail files).flatten }) := by
  have head : ({ cap := surroundRoom } : Memsink).writes h.head =
      some { cap := surroundRoom, bytes := h.head.flatten } := by
    rw [Memsink.writes_empty, if_neg]
    rw [head_length]
    decide
  have open_ : ∀ threads planHead planTail, Box.filesSave
      { h with threads, planHead, planTail } = some files := fun _ _ _ => listed
  have threads : h.threads.save h.context = (some ((h.threads.settle h.context).encode h.context),
      h.threads.settle h.context) := by
    unfold Threads.save
    rw [if_neg (not_not.mpr active)]
  unfold stateSurround
  dsimp only
  rw [show Box.head { h with planHead := some [], planTail := some [] } = h.head from rfl, head]
  dsimp only
  rw [threads]
  dsimp only
  rw [open_]
  dsimp only [Option.bind_some]
  rw [show [(h.threads.settle h.context).encode h.context] ++ files ++ [saveEnd] =
    h.tail files from rfl, Memsink.writes_empty]
  split_ifs <;> rfl

/-- What the host announces for a machine it saves: the length of the state, or 0 when the tail
does not fit its buffer. -/
theorem stateSize_eq {groupShift : Nat} (life : Life groupShift h.block) (sound : h.fs.Sound names)
    (saved : h.saveState.1 = some bytes) :
    bytes.length ≠ 0 ∧ h.stateSize.1 = if surroundRoom < h.tailSize then 0 else bytes.length := by
  obtain ⟨is_sealed, active, memory, files, wrote, listed, rfl⟩ := saveState_parts.mp saved
  have tail := tail_length sound listed
  have block_sealed : h.block.activate.isSealed = true := by
    unfold Block.saveState at wrote
    split_ifs at wrote with unsealed
    simpa using unsealed
  have hash : h.block.activate.hash.length = 32 := by
    obtain ⟨-, -, same, hash, -⟩ := h.block.activate_same
    rw [hash]
    exact life.hash (same.symm.trans block_sealed)
  obtain ⟨size, nonzero⟩ := Block.saveState_length life.recorded.activate hash wrote
  have parts : (h.head.flatten ++ memory ++ (h.threads.settle h.context).encode h.context ++
      files.flatten ++ saveEnd).length =
      h.head.flatten.length + memory.length + (h.tail files).flatten.length := by
    simp only [Box.tail, List.flatten_append, List.flatten_cons, List.flatten_nil, List.append_nil,
      List.length_append]
    omega
  refine ⟨by rw [parts]; omega, ?_⟩
  unfold stateSize
  rw [is_sealed, if_neg (by decide)]
  have surround := @stateSurround_eq h.activate active files listed
  rw [show h.activate.tail files = h.tail files from rfl, tail] at surround
  dsimp only
  rw [surround, parts, tail]
  split_ifs with full
  · rfl
  · dsimp only [Option.getD_some]
    rw [show h.activate.head = h.head from rfl, tail, ← size]
    exact if_pos nonzero

/-- The announced size of a machine that is saved is the size of its state, and not 0, exactly
when what stands after the block's state fits 1 MiB. -/
theorem stateSize_announced {groupShift : Nat} (life : Life groupShift h.block)
    {names : Int32 → Option Bytes} (sound : h.fs.Sound names) {bytes : Bytes}
    (saved : h.saveState.1 = some bytes) :
    (h.stateSize.1 = bytes.length ∧ h.stateSize.1 ≠ 0) ↔ h.tailSize ≤ 2 ^ 20 := by
  obtain ⟨nonempty, size⟩ := stateSize_eq life sound saved
  show _ ↔ h.tailSize ≤ surroundRoom
  rw [size]
  split_ifs with full
  · exact ⟨fun both => absurd rfl both.2, fun fits => absurd full (Nat.not_lt.mpr fits)⟩
  · exact ⟨fun _ => Nat.not_lt.mp full, fun _ => ⟨rfl, nonempty⟩⟩

end Box

/-! ## A table of many descriptors -/

/-- The first descriptor of the table, duplicated `n` times. -/
def Files.dups (fs : Files) : Nat → Files
  | 0 => fs
  | n + 1 => ((fs.dups n).dup 0).2

/-- One file that is only read, open once. -/
def Files.single (name : Bytes) : Files :=
  { files := [{ name, kind := .regular }], handles := [⟨0, 0, 0⟩] }

theorem Files.dups_kept {name : Bytes} (text : 0 ∉ name) : ∀ n < 2 ^ 31,
    ((single name).dups n).files = (single name).files ∧
      ((single name).dups n).handles.length = n + 1 ∧
      ⟨0, 0, 0⟩ ∈ ((single name).dups n).handles ∧
      (∀ o ∈ ((single name).dups n).handles, o.file = 0) ∧
      ∃ names, ((single name).dups n).Kept names
  | 0, _ => by
    refine ⟨rfl, rfl, List.mem_singleton_self _, by simp [dups, single],
      fun fd => if fd = 0 then some name else none, ⟨?_, ?_, ?_, ?_, ?_, ?_⟩, ?_, ?_⟩
    · exact List.nodup_singleton _
    · simp [dups, single]
    · simp [dups, single]
    · intro fd shut
      exact if_neg (shut ⟨0, 0, 0⟩ (List.mem_singleton_self _)).symm
    · exact List.nodup_singleton _
    · simpa [dups, single] using text
    · intro o here p there _ _ _ _ _
      rw [List.mem_singleton.mp here, List.mem_singleton.mp there]
    · intro _ o here f _
      rw [List.mem_singleton.mp here]
      exact UInt64.zero_le
  | n + 1, small => by
    obtain ⟨files, length, first, on, names, kept⟩ := dups_kept text n (by omega)
    generalize is : (single name).dups n = fs at files length first on kept
    have at_ : fs.files[0]? = some { name, kind := .regular } := by
      rw [files]
      rfl
    have opened : fs.opened 0 = some (⟨0, 0, 0⟩, { name, kind := .regular }) :=
      kept.sound.opened.mpr ⟨first, rfl, at_⟩
    have made : (single name).dups (n + 1) = (fs.handleAdd 0 0).2 := by
      show (((single name).dups n).dup 0).2 = _
      rw [is]
      unfold dup
      rw [opened]
      rfl
    rw [made]
    refine ⟨files, ?_, List.mem_append_left _ first, ?_, _,
      kept.handleAdd (by omega) at_ (fun _ writable => nomatch writable) fun _ => UInt64.zero_le⟩
    · show (fs.handles ++ [_]).length = _
      rw [List.length_append, length]
      rfl
    · intro o member
      rcases List.mem_append.mp member with old | new
      · exact on o old
      · rw [List.mem_singleton.mp new]

theorem Files.dups_streamSize {name : Bytes} (text : 0 ∉ name) {n : Nat} (small : n < 2 ^ 31) :
    ((single name).dups n).streamSize = 4 + (n + 1) * (16 + name.length % 2 ^ 32) := by
  obtain ⟨files, length, -, on, -⟩ := dups_kept text n small
  generalize (single name).dups n = fs at files length on
  have each : ∀ o ∈ fs.handles, fs.handleSize o = 16 + name.length % 2 ^ 32 := fun o member => by
    unfold handleSize record
    rw [files, on o member]
    rfl
  rw [streamSize, List.map_congr_left each, List.map_const', List.sum_replicate_nat, length]

namespace Box

/-- A sealed machine of one page and one thread, the first descriptor of its one file duplicated
`n` times. -/
def duplicating (name : Bytes) (n : Nat) : Box where
  threads := .new
  context := ⟨0, 0, 0, 0⟩
  memory := ⟨Block.onePage.sealNow.2, ⟨⟨0, 0⟩, ⟨0, 0⟩, ⟨0, 0⟩, ⟨0, 0⟩, ⟨0, 0⟩, ⟨0, 0⟩, ⟨0, 0⟩,
    ⟨0, 0⟩⟩, 0,
    []⟩
  fs := (Files.single name).dups n
  programBreak := 0
  sealed_ := true
  elfHash := ⟨List.replicate 32 1, List.length_replicate⟩

theorem duplicating_saved {name : Bytes} (text : 0 ∉ name) {n : Nat} (small : n < 2 ^ 31) :
    Life 0 (duplicating name n).block ∧ (∃ names, (duplicating name n).fs.Sound names) ∧
      ∃ bytes, (duplicating name n).saveState.1 = some bytes := by
  obtain ⟨-, -, -, -, names, kept⟩ := Files.dups_kept text n small
  have is_sealed : Block.onePage.sealNow.2.activate.isSealed = true := by decide +kernel
  have memory : ∃ memory, (duplicating name n).block.activate.saveState = .ok memory := by
    show ∃ memory, Block.onePage.sealNow.2.activate.saveState = .ok memory
    unfold Block.saveState
    rw [is_sealed, if_neg (by decide)]
    exact ⟨_, rfl⟩
  have files : ∃ files, (duplicating name n).filesSave = some files :=
    ⟨_, congrArg (Option.map _) kept.sound.saveHandles⟩
  obtain ⟨memory, wrote⟩ := memory
  obtain ⟨files, listed⟩ := files
  exact ⟨.sealNow Block.onePage_built.life, ⟨names, kept.sound⟩, _,
    saveState_parts.mpr ⟨rfl, rfl, memory, files, wrote, listed, rfl⟩⟩

theorem duplicating_tailSize {name : Bytes} (text : 0 ∉ name) {n : Nat} (small : n < 2 ^ 31) :
    (duplicating name n).tailSize = 198 + (n + 1) * (16 + name.length % 2 ^ 32) := by
  have threads : Threads.new.streamSize = 136 := by decide
  have files := Files.dups_streamSize text small
  show Threads.new.streamSize + (22 + ((Files.single name).dups n).streamSize) + 36 = _
  omega

/-- A machine with two descriptors is announced at its size. -/
theorem stateSize_announced_two : ∃ bytes, (duplicating [0x61] 1).saveState.1 = some bytes ∧
    (duplicating [0x61] 1).stateSize.1 = bytes.length ∧ (duplicating [0x61] 1).stateSize.1 ≠ 0 := by
  obtain ⟨life, ⟨names, sound⟩, bytes, saved⟩ :=
    @duplicating_saved [0x61] (by decide) 1 (by decide)
  refine ⟨bytes, saved, (stateSize_announced life sound saved).mpr ?_⟩
  rw [duplicating_tailSize (by decide) (by decide)]
  decide

/-- One file under a name of 4000 bytes, its descriptor duplicated 299 times: the state is saved,
and announced as nothing. -/
theorem stateSize_unannounced : ∃ h : Box, Life 0 h.block ∧ (∃ names, h.fs.Sound names) ∧
    ∃ bytes, h.saveState.1 = some bytes ∧ bytes.length ≠ 0 ∧ h.stateSize.1 = 0 := by
  have text : (0 : UInt8) ∉ List.replicate 4000 (0x61 : UInt8) := fun member =>
    absurd (List.eq_of_mem_replicate member) (by decide)
  obtain ⟨life, ⟨names, sound⟩, bytes, saved⟩ := @duplicating_saved _ text 299 (by decide)
  obtain ⟨nonempty, size⟩ := stateSize_eq life sound saved
  refine ⟨_, life, ⟨names, sound⟩, bytes, saved, nonempty, ?_⟩
  rw [size, if_pos]
  rw [duplicating_tailSize text (by decide), List.length_replicate]
  decide

end Box

end MiniBox
