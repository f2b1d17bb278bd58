import MiniBox.Threads.Steps

/-!
# Saving and loading the thread set

`mb_threads_save` writes the floating-point control words, in a machine of spec 3 the
clock, the ids, the threads as they lie in memory, the queues and, in spec 3, the
deadlines.  `mb_threads_load` reads them into a set that is already there: threads are
inserted one by one and queues made one by one.  A load that fails has changed what it had
read by then.  The marks that order timed waits are not written.
-/

namespace MiniBox

open Lib

/-! ## Words on a stream -/

def encode32 (v : UInt32) : Bytes := le 4 v.toNat

def encode64 (v : UInt64) : Bytes := le 8 v.toNat

def rd32 (stream : Bytes) : Option (UInt32 × Bytes) :=
  (rd 4 stream).map fun r => (UInt32.ofNat (leVal r.1), r.2)

def rd64 (stream : Bytes) : Option (UInt64 × Bytes) :=
  (rd 8 stream).map fun r => (UInt64.ofNat (leVal r.1), r.2)

@[simp] theorem rd32_encode32 (v : UInt32) (rest : Bytes) : rd32 (encode32 v ++ rest) = some
    (v, rest) := by
  have small : v.toNat < 256 ^ 4 := v.toNat_lt
  rw [rd32, encode32, rd_append (le_length 4 _), Option.map_some, leVal_le small,
    UInt32.ofNat_toNat]

@[simp] theorem rd64_encode64 (v : UInt64) (rest : Bytes) : rd64 (encode64 v ++ rest) = some
    (v, rest) := by
  have small : v.toNat < 256 ^ 8 := v.toNat_lt
  rw [rd64, encode64, rd_append (le_length 8 _), Option.map_some, leVal_le small,
    UInt64.ofNat_toNat]

/-- A count written as a 32-bit word. -/
theorem rd32_count {n : Nat} (small : n < 2 ^ 32) (rest : Bytes) :
    rd32 (le 4 n ++ rest) = some (UInt32.ofNat n, rest) := by
  have fits : n < 256 ^ 4 := small
  rw [rd32, rd_append (le_length 4 _), Option.map_some, leVal_le fits]

/-- "GuestFpuState1". -/
def fpuMagic : Bytes :=
  [0x47, 0x75, 0x65, 0x73, 0x74, 0x46, 0x70, 0x75, 0x53, 0x74, 0x61, 0x74, 0x65, 0x31]

/-- "GuestThreadSe3". -/
def clockMagic : Bytes :=
  [0x47, 0x75, 0x65, 0x73, 0x74, 0x54, 0x68, 0x72, 0x65, 0x61, 0x64, 0x53, 0x65, 0x33]

/-- "GuestThreadSet". -/
def setMagic : Bytes :=
  [0x47, 0x75, 0x65, 0x73, 0x74, 0x54, 0x68, 0x72, 0x65, 0x61, 0x64, 0x53, 0x65, 0x74]

/-! ## Threads and queues -/

def TState.word : TState → UInt32
  | .runnable => 0
  | .waiting => 1
  | .other w _ => w

def TState.ofWord (w : UInt32) : TState :=
  if h : 2 ≤ w then .other w h else if w = 0 then .runnable else .waiting

theorem TState.ofWord_word (s : TState) : ofWord s.word = s := by
  cases s with
  | runnable => rfl
  | waiting => rfl
  | other w neither => simp [word, ofWord, neither]

/-- A `gthread` as it lies in memory. -/
def GThread.encode (g : GThread) : Bytes :=
  encode32 g.tid ++ (encode32 g.state.word ++ (encode64 g.rax ++ (encode64 g.rsp ++
    (encode64 g.threadArea ++ (encode64 g.tidAddress ++ (encode64 g.stack.start ++
      (encode64 g.stack.size ++ (encode64 g.pending.start ++ encode64 g.pending.size))))))))

def GThread.read (stream : Bytes) : Option (GThread × Bytes) := do
  let (tid, stream) ← rd32 stream
  let (state, stream) ← rd32 stream
  let (rax, stream) ← rd64 stream
  let (rsp, stream) ← rd64 stream
  let (threadArea, stream) ← rd64 stream
  let (tidAddress, stream) ← rd64 stream
  let (stackStart, stream) ← rd64 stream
  let (stackSize, stream) ← rd64 stream
  let (pendingStart, stream) ← rd64 stream
  let (pendingSize, stream) ← rd64 stream
  some (⟨tid, TState.ofWord state, rax, rsp, threadArea, tidAddress, ⟨stackStart, stackSize⟩,
    ⟨pendingStart, pendingSize⟩⟩, stream)

theorem GThread.read_encode (g : GThread) (rest : Bytes) :
    read (g.encode ++ rest) = some (g, rest) := by
  simp only [read, encode, List.append_assoc, rd32_encode32, rd64_encode64,
    Option.bind_eq_bind, Option.bind_some, TState.ofWord_word]

def encodeQueue (q : Queue UInt64 UInt32) : Bytes :=
  encode64 q.key ++ (le 4 q.items.length ++ q.items.flatMap encode32)

namespace Threads

/-! ## Saving -/

def encode (t : Threads) (c : Context) : Bytes :=
  fpuMagic ++ (le 2 c.guestFcw.toNat ++ (encode32 c.guestMxcsr ++
    ((if t.spec = 3 then clockMagic ++ encode64 t.vclockNs else []) ++ (setMagic ++
      (encode32 t.nextTid ++ (encode32 t.activeTid ++ (le 4 t.threads.length ++
        (t.threads.flatMap GThread.encode ++ (le 4 t.futicies.length ++
          (t.futicies.flatMap encodeQueue ++ (setMagic ++
            (if t.spec = 3 then t.deadlines.flatMap encode64 else []))))))))))))

/-- What a save stores in the main thread first. -/
def settle (t : Threads) (c : Context) : Threads :=
  t.onThread 1 fun g => { g with threadArea := c.threadArea, rsp := c.guestRsp }

/-- `mb_threads_save`: only while the main thread is the active one. -/
def save (t : Threads) (c : Context) : Option Bytes × Threads :=
  if t.activeTid ≠ 1 then (none, t) else (some ((t.settle c).encode c), t.settle c)

/-! ## Loading -/

/-- The control words and the clock, up to the thread set's own magic. -/
def loadHeader (spec : Nat) (stream : Bytes) : Option ((UInt16 × UInt32 × UInt64) × Bytes) := do
  let (magic, stream) ← rd 14 stream
  let (fcw, mxcsr, magic, stream) ←
    if magic = fpuMagic then do
      let (fcw, stream) ← rd 2 stream
      let (mxcsr, stream) ← rd32 stream
      let (magic, stream) ← rd 14 stream
      some (UInt16.ofNat (leVal fcw), mxcsr, magic, stream)
    else some (0x037f, 0x1f80, magic, stream)
  if spec = 3 then
    if magic ≠ clockMagic then none
    else do
      let (vclock, stream) ← rd64 stream
      let (magic, stream) ← rd 14 stream
      if magic ≠ setMagic then none else some ((fcw, mxcsr, vclock), stream)
  else if magic ≠ setMagic then none
  else some ((fcw, mxcsr, 0), stream)

/-- A read that stops short has filled a part of the word. -/
def rdInto32 (old : UInt32) (stream : Bytes) : UInt32 × Option Bytes :=
  match rd32 stream with
  | none => (UInt32.ofNat (leVal (fillFrom stream (encode32 old))), none)
  | some (v, stream) => (v, some stream)

def loadThreads : Nat → Threads → Bytes → Option Bytes × Threads
  | 0, t, stream => (some stream, t)
  | count + 1, t, stream =>
    match GThread.read stream with
    | none => (none, t)
    | some (g, stream) => loadThreads count (t.insertThread g) stream

def loadTids (addr : UInt64) : Nat → Queues UInt64 UInt32 → Bytes →
    Option Bytes × Queues UInt64 UInt32
  | 0, queues, stream => (some stream, queues)
  | count + 1, queues, stream =>
    match rd32 stream with
    | none => (none, queues)
    | some (tid, stream) => loadTids addr count (queues.extend addr [tid]) stream

def loadQueues : Nat → Queues UInt64 UInt32 → Bytes → Option Bytes × Queues UInt64 UInt32
  | 0, queues, stream => (some stream, queues)
  | count + 1, queues, stream =>
    match rd64 stream with
    | none => (none, queues)
    | some (addr, stream) =>
      match rd32 stream with
      | none => (none, queues)
      | some (tids, stream) =>
        match loadTids addr tids.toNat (queues.extend addr []) stream with
        | (none, queues) => (none, queues)
        | (some stream, queues) => loadQueues count queues stream

def loadDeadlines : List UInt64 → Bytes → Option Bytes × List UInt64
  | [], stream => (some stream, [])
  | deadline :: deadlines, stream =>
    match rd64 stream with
    | none =>
      (none, UInt64.ofNat (leVal (fillFrom stream (encode64 deadline))) :: deadlines)
    | some (v, stream) =>
      let (rest, deadlines) := loadDeadlines deadlines stream
      (rest, v :: deadlines)

/-- What follows the queues: the main thread's registers go to the context, and in spec 3
the clock and the deadlines are read. -/
def loadTail (t : Threads) (c : Context) (header : UInt16 × UInt32 × UInt64) (stream : Bytes) :
    Option Bytes × Threads × Context :=
  match rd 14 stream with
  | none => (none, t, c)
  | some (magic, stream) =>
    if magic ≠ setMagic then (none, t, c)
    else
      match t.findThread 1 with
      | none => (none, t, c)
      | some main =>
        let c := { c with
          threadArea := main.threadArea, guestRsp := main.rsp
          guestFcw := header.1, guestMxcsr := header.2.1 }
        if t.spec = 3 then
          let (rest, deadlines) := loadDeadlines t.deadlines stream
          (rest, { t with vclockNs := header.2.2, deadlines }, c)
        else (some stream, t, c)

/-- The threads and the queues. -/
def loadBody (t : Threads) (c : Context) (header : UInt16 × UInt32 × UInt64) (stream : Bytes) :
    Option Bytes × Threads × Context :=
  match rd32 stream with
  | none => (none, t, c)
  | some (count, stream) =>
    match loadThreads count.toNat { t with threads := [], deadlines := [], seqs := [] } stream with
    | (none, t) => (none, t, c)
    | (some stream, t) =>
      let t := { t with futicies := [] }
      match rd32 stream with
      | none => (none, t, c)
      | some (count, stream) =>
        match loadQueues count.toNat [] stream with
        | (none, futicies) => (none, { t with futicies }, c)
        | (some stream, futicies) => loadTail { t with futicies } c header stream

/-- `mb_threads_load`: what is left of the stream, or `none` when it fails. -/
def load (t : Threads) (c : Context) (stream : Bytes) : Option Bytes × Threads × Context :=
  if t.activeTid ≠ 1 then (none, t, c)
  else
    match loadHeader t.spec stream with
    | none => (none, t, c)
    | some (header, stream) =>
      match rdInto32 t.nextTid stream with
      | (nextTid, none) => (none, { t with nextTid }, c)
      | (nextTid, some stream) =>
        match rdInto32 t.activeTid stream with
        | (activeTid, none) => (none, { t with nextTid, activeTid }, c)
        | (activeTid, some stream) => loadBody { t with nextTid, activeTid } c header stream

/-! ## Reading back what was written -/

section Reading

variable {t u : Threads} {c : Context}

/-- A set of another kind of spec is refused before anything is changed. -/
theorem loadHeader_encode (spec : Nat) (rest : Bytes) :
    loadHeader spec (fpuMagic ++ (le 2 c.guestFcw.toNat ++ (encode32 c.guestMxcsr ++
      ((if t.spec = 3 then clockMagic ++ encode64 t.vclockNs else []) ++ (setMagic ++ rest))))) =
      if spec = 3 ↔ t.spec = 3 then
        some ((c.guestFcw, c.guestMxcsr, if t.spec = 3 then t.vclockNs else 0), rest)
      else none := by
  have fpu : ∀ rest, rd 14 (fpuMagic ++ rest) = some (fpuMagic, rest) := rd_append rfl
  have clock : ∀ rest, rd 14 (clockMagic ++ rest) = some (clockMagic, rest) := rd_append rfl
  have set_ : ∀ rest, rd 14 (setMagic ++ rest) = some (setMagic, rest) := rd_append rfl
  have differ : setMagic ≠ clockMagic := by decide
  have small : c.guestFcw.toNat < 256 ^ 2 := c.guestFcw.toNat_lt
  have fcw : ∀ rest, rd 2 (le 2 c.guestFcw.toNat ++ rest) = some (le 2 c.guestFcw.toNat, rest) :=
    rd_append (le_length 2 _)
  by_cases saved : t.spec = 3
  · by_cases here : spec = 3
    · simp [loadHeader, saved, here, fpu, fcw, clock, set_, leVal_le small, List.append_assoc]
    · simp [loadHeader, saved, here, fpu, fcw, clock, differ.symm, List.append_assoc]
  · by_cases here : spec = 3
    · simp [loadHeader, saved, here, fpu, fcw, set_, differ]
    · simp [loadHeader, saved, here, fpu, fcw, set_, leVal_le small]

/-- Threads in order of their ids are inserted one behind the other. -/
theorem loadThreads_encode (rest : Bytes) : ∀ (more before : List GThread),
    Sorted GThread.tid (before ++ more) →
    loadThreads more.length
      { t with threads := before, deadlines := List.replicate before.length 0
               seqs := List.replicate before.length 0 }
      (more.flatMap GThread.encode ++ rest) =
      (some rest, { t with
        threads := before ++ more, deadlines := List.replicate (before ++ more).length 0
        seqs := List.replicate (before ++ more).length 0 })
  | [], before, _ => by simp [loadThreads]
  | g :: more, before, sorted => by
    have grouped : before ++ g :: more = (before ++ [g]) ++ more := by simp
    have below : ∀ h ∈ before, h.tid < g.tid := fun h member => by
      rw [Sorted, List.pairwise_append] at sorted
      exact sorted.2.2 h member g (by simp)
    have index : place GThread.tid g.tid before = before.length := place_last below
    have ids : before.insertIdx before.length g = before ++ [g] := by
      have last := insertIdx_append g before []
      rwa [List.append_nil] at last
    have zeros : (List.replicate before.length (0 : UInt64)).insertIdx before.length 0 =
        List.replicate (before ++ [g]).length 0 := by
      have last := insertIdx_append (0 : UInt64) (List.replicate before.length 0) []
      rw [List.append_nil, List.length_replicate] at last
      rw [last, ← List.replicate_succ', List.length_append, List.length_singleton]
    have inserted : insertThread { t with
          threads := before, deadlines := List.replicate before.length 0
          seqs := List.replicate before.length 0 } g =
        { t with
          threads := before ++ [g], deadlines := List.replicate (before ++ [g]).length 0
          seqs := List.replicate (before ++ [g]).length 0 } := by
      rw [insertThread]
      simp only [show insertIndex { t with
          threads := before, deadlines := List.replicate before.length 0
          seqs := List.replicate before.length 0 } g.tid = before.length from index, ids, zeros]
    rw [List.length_cons, List.flatMap_cons, List.append_assoc, loadThreads, GThread.read_encode]
    simp only [inserted]
    rw [loadThreads_encode rest more _ (grouped ▸ sorted), grouped]

theorem loadTids_encode (addr : UInt64) (queues : Queues UInt64 UInt32) (rest : Bytes) :
    ∀ (more before : List UInt32),
      loadTids addr more.length (queues.extend addr before) (more.flatMap encode32 ++ rest) =
        (some rest, queues.extend addr (before ++ more))
  | [], before => by simp [loadTids]
  | tid :: more, before => by
    rw [List.length_cons, List.flatMap_cons, List.append_assoc, loadTids, rd32_encode32]
    simp only [Queues.extend_extend]
    rw [loadTids_encode addr queues rest more, List.append_assoc]
    rfl

theorem loadQueues_encode (rest : Bytes) : ∀ (more before : Queues UInt64 UInt32),
    (before ++ more).keys.Nodup → (∀ q ∈ more, q.items.length < 2 ^ 32) →
    loadQueues more.length before (more.flatMap encodeQueue ++ rest) = (some rest, before ++ more)
  | [], before, _, _ => by simp [loadQueues]
  | q :: more, before, distinct, small => by
    have grouped : before ++ q :: more = (before ++ [q]) ++ more := by simp
    have absent : q.key ∉ before.keys := fun member => by
      simp only [Queues.keys, List.map_append, List.map_cons] at distinct
      exact (List.nodup_append.mp distinct).2.2 _ member _ (by simp) rfl
    have count := small q (by simp)
    have tids : (UInt32.ofNat q.items.length).toNat = q.items.length :=
      UInt32.toNat_ofNat_of_lt' count
    rw [List.length_cons, List.flatMap_cons, List.append_assoc, loadQueues, encodeQueue,
      List.append_assoc, List.append_assoc, rd64_encode64]
    simp only [rd32_count count, tids, loadTids_encode, List.nil_append]
    rw [Queues.extend_of_not_mem absent, loadQueues_encode rest more _ (grouped ▸ distinct)
      fun p inside => small p (by simp [inside]),
      grouped]

theorem loadDeadlines_encode (rest : Bytes) : ∀ (deadlines old : List UInt64),
    old.length = deadlines.length →
    loadDeadlines old (deadlines.flatMap encode64 ++ rest) = (some rest, deadlines)
  | [], [], _ => by simp [loadDeadlines]
  | deadline :: deadlines, d :: old, same => by
    rw [List.flatMap_cons, List.append_assoc, loadDeadlines, rd64_encode64]
    simp only [loadDeadlines_encode rest deadlines old (by simpa using same)]

/-- What a load of the saved set leaves in a set: the deadlines of a machine of spec 3, and
no marks. -/
def restored (u t : Threads) : Threads :=
  { u with
    nextTid := t.nextTid, activeTid := t.activeTid, threads := t.threads, futicies := t.futicies
    deadlines := if t.spec = 3 then t.deadlines else List.replicate t.threads.length 0
    seqs := List.replicate t.threads.length 0
    vclockNs := if t.spec = 3 then t.vclockNs else u.vclockNs }

/-- A set whose ids ascend and whose queues are tidy is read back. -/
theorem load_encode {main : GThread} (sorted : Sorted GThread.tid t.threads)
    (aligned : t.deadlines.length = t.threads.length) (distinct : t.futicies.keys.Nodup)
    (fewThreads : t.threads.length < 2 ^ 32) (fewQueues : t.futicies.length < 2 ^ 32)
    (fewTids : ∀ q ∈ t.futicies, q.items.length < 2 ^ 32) (here : t.findThread 1 = some main)
    (spec : u.spec = 3 ↔ t.spec = 3) (active : u.activeTid = 1) (d : Context) (rest : Bytes) :
    u.load d (t.encode c ++ rest) =
      (some rest, u.restored t, ⟨main.rsp, main.threadArea, c.guestFcw, c.guestMxcsr⟩) := by
  have set_ : ∀ rest, rd 14 (setMagic ++ rest) = some (setMagic, rest) := rd_append rfl
  have threads : ∀ rest, loadThreads t.threads.length
      { u with
        nextTid := t.nextTid, activeTid := t.activeTid, threads := [], deadlines := [], seqs := [] }
      (t.threads.flatMap GThread.encode ++ rest) =
      (some rest, { u with
        nextTid := t.nextTid, activeTid := t.activeTid, threads := t.threads
        deadlines := List.replicate t.threads.length 0
        seqs := List.replicate t.threads.length 0 }) :=
    fun rest => loadThreads_encode (t := { u with nextTid := t.nextTid, activeTid := t.activeTid })
      rest t.threads [] sorted
  have queues : ∀ rest, loadQueues t.futicies.length [] (t.futicies.flatMap encodeQueue ++ rest) =
      (some rest, t.futicies) := fun rest => loadQueues_encode rest t.futicies [] distinct fewTids
  have zeros : (List.replicate t.threads.length (0 : UInt64)).length = t.deadlines.length := by
    rw [List.length_replicate, aligned]
  have found : t.threads.find? (·.tid == 1) = some main := here
  rw [load, if_neg (by simp [active]), encode]
  simp only [List.append_assoc, loadHeader_encode, spec, if_true, rdInto32, rd32_encode32, loadBody,
    rd32_count fewThreads, UInt32.toNat_ofNat_of_lt' fewThreads, threads, rd32_count fewQueues,
    UInt32.toNat_ofNat_of_lt' fewQueues, queues, loadTail, set_, ne_eq, not_true_eq_false, if_false,
    findThread, found, restored]
  by_cases v3 : t.spec = 3
  · simp only [v3, if_true, loadDeadlines_encode rest t.deadlines _ zeros]
  · simp only [v3, if_false, List.nil_append]

theorem load_refused (other : ¬ (u.spec = 3 ↔ t.spec = 3)) (d : Context) (rest : Bytes) :
    u.load d (t.encode c ++ rest) = (none, u, d) := by
  rw [load, encode]
  simp only [List.append_assoc, loadHeader_encode, if_neg other]
  split <;> rfl

end Reading

end Threads

end MiniBox
