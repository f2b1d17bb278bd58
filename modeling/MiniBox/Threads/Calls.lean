import MiniBox.Threads.Set

/-!
# Thread operations

What a guest thread asks of the set: to start and end threads, to wait on an address and
to wake those who wait there, to hold a lock with its waiters in line, and to let others
run.  Each acts on a machine: the set, the context of the running thread, and the guest's
memory behind the few operations host code makes on it.
-/

namespace MiniBox

open Lib

/-- What host code does to the guest's memory for a thread. -/
class GuestMemory (M : Type) where
  read32 : M → UInt64 → UInt32 × M
  read64 : M → UInt64 → UInt64 × M
  write32 : M → UInt64 → UInt32 → M
  write64 : M → UInt64 → UInt64 → M
  /-- `mb_block_mprotect` at `MB_PROT_RWSTACK` -/
  protectStack : M → Range → Except Errno Unit × M

open GuestMemory

structure Machine (M : Type) where
  threads : Threads
  context : Context
  memory : M

/-- How an operation ends: with an answer and the machine, or with a death and the memory
as it was then. -/
abbrev Answer (M α : Type) := Except (Death × M) (α × Machine M)

/-! ## The set at the start -/

namespace Threads

/-- `mb_threads_new`: the main thread, running. -/
def new : Threads :=
  insertThread
    { nextTid := 2, activeTid := 1, threads := [], futicies := [], spec := 2, vclockNs := 0
      deadlines := [], seqs := [], parkSeq := 0, kitRevision := 0 }
    { tid := 1 }

def setSpec (t : Threads) (spec : Nat) : Threads := { t with spec }

def setKitRevision (t : Threads) (revision : UInt32) : Threads :=
  { t with kitRevision := revision }

/-! ## A thread's own stack -/

/-- `mb_threads_hold_stack_unmap`: an unmap of the stack the thread stands on waits until
the thread has left it. -/
def holdStackUnmap (t : Threads) (r : Range) : Bool × Threads :=
  match t.findThread t.activeTid with
  | none => (false, t)
  | some self =>
    if self.stack.size = 0 then (false, t)
    else if self.stack.finish ≤ r.start || r.finish ≤ self.stack.start then (false, t)
    else (true, t.onThread t.activeTid fun g => { g with pending := r })

def takeHeldUnmap (t : Threads) : Option Range × Threads :=
  match t.findThread t.activeTid with
  | none => (none, t)
  | some self =>
    if self.pending.size = 0 then (none, t)
    else (some self.pending, t.onThread t.activeTid fun g => { g with pending := ⟨0, 0⟩ })

/-! ## Waking -/

/-- The loop of `mb_threads_futex_requeue`, `left` more at most: the first `wake` are woken,
the others wait on `target` from then on. -/
def requeueLoop (source target : UInt64) : (left wake : Nat) → Threads → Nat × Threads
  | 0, _, t => (0, t)
  | left + 1, wake, t =>
    match t.unparkOne source with
    | (none, t) => (0, t)
    | (some (tid, more), t) =>
      let t := if wake = 0 then t.park target tid else t
      if more then
        let (count, t) := requeueLoop source target left (wake - 1) t
        (count + 1, t)
      else (1, t)

def futexRequeue (t : Threads) (source target : UInt64) (wake requeue : UInt32) : Nat × Threads :=
  requeueLoop source target (wake.toNat + requeue.toNat) wake.toNat t

def futexWake (t : Threads) (addr : UInt64) (count : UInt32) : Nat × Threads :=
  t.futexRequeue addr 0 count 0

/-- Whether a `sched_yield` costs a tick: no other thread can run, and one waits with a
deadline. -/
def yieldTicks (t : Threads) : Bool :=
  let others := (t.threads.zip t.deadlines).filter fun gd => gd.1.tid != t.activeTid
  !(others.any fun gd => gd.1.state == .runnable) &&
    others.any fun gd => gd.1.state == .waiting && gd.2 != 0

end Threads

namespace Machine

variable {M : Type} (m : Machine M)

/-- The scheduler's answer, with the memory as it is. -/
def switched (memory : M) (r : Except Death (UInt64 × Threads × Context)) :
    Answer M UInt64 :=
  match r with
  | .error e => .error (e, memory)
  | .ok (ret, threads, context) => .ok (ret, ⟨threads, context, memory⟩)

/-- `mb_threads_yield_value`: others run, and `ret` is what this thread resumes with. -/
def yieldValue (ret : UInt64) : Answer M UInt64 :=
  switched m.memory (m.threads.swapToNext m.context ret)

def yield : Answer M UInt64 := m.yieldValue (sok 0)

def schedYield : Answer M UInt64 :=
  let t := m.threads
  let t := if t.spec = 3 ∧ 2 ≤ t.kitRevision ∧ t.yieldTicks then t.advance Threads.tickNs else t
  yield { m with threads := t }

def parkMe (ret addr : UInt64) : Answer M UInt64 :=
  switched m.memory ((m.threads.park addr m.threads.activeTid).swapToNext m.context ret)

/-- `mb_threads_set_tid_address`, which answers the thread's id. -/
def setTidAddress (addr : UInt64) : Answer M UInt64 :=
  let t := m.threads
  match t.findThread t.activeTid with
  | none => .error (.noThread, m.memory)
  | some self =>
    .ok (sok self.tid.toUInt64,
      { m with threads := t.onThread t.activeTid fun g => { g with tidAddress := addr } })

variable [GuestMemory M]

/-! ## Starting and ending -/

/-- `mb_threads_spawn`: the stack named by words 12 and 13 of the pthread struct is made a
stack, the child's first frame and the parent's word are written. -/
def spawn (threadArea guestRsp guestRip childTid parentTid pthreadArea : UInt64) :
    Except Errno UInt32 × Machine M :=
  let tid := m.threads.nextTid
  if threadArea = 0 ∨ pthreadArea = 0 then (.error .einval, m)
  else
    let (stackEnd, memory) := read64 m.memory (pthreadArea + 12 * 8)
    let (stackSize, memory) := read64 memory (pthreadArea + 13 * 8)
    let stack : Range := ⟨stackEnd - stackSize, stackSize⟩
    match protectStack memory stack.alignExpand with
    | (.error e, memory) => (.error e, { m with memory })
    | (.ok (), memory) =>
      let memory := write64 memory (guestRsp - 16) 0
      let memory := write64 memory (guestRsp - 16 + 8) guestRip
      let memory := write32 memory parentTid tid
      let g : GThread :=
        { tid, rax := sok 0, rsp := guestRsp - 16, threadArea, tidAddress := childTid, stack }
      (.ok tid, { m with threads := { m.threads.insertThread g with nextTid := tid + 1 }, memory })

/-- What `mb_threads_exit` does before it switches: the thread's word is cleared and one
that waits there woken, and the thread is off the runnable ones, in no queue. -/
def leave (self : GThread) : Machine M :=
  let m := if self.tidAddress = 0 then m else
    { m with
      threads := (m.threads.unparkOne self.tidAddress).2
      memory := write32 m.memory self.tidAddress 0 }
  { m with threads := m.threads.onThread m.threads.activeTid fun g => { g with state := .waiting } }

def exit : Answer M UInt64 :=
  if m.threads.activeTid = 1 then .error (.guest "the core's main thread exited", m.memory)
  else
    match m.threads.findThread m.threads.activeTid with
    | none => .error (.noThread, m.memory)
    | some self =>
      match yield (m.leave self) with
      | .error e => .error e
      | .ok (ret, m') =>
        if m'.threads.activeTid = m.threads.activeTid then
          .error (.guest "the core's last thread exited", m'.memory)
        else .ok (ret, { m' with threads := m'.threads.removeThread m.threads.activeTid })

/-! ## Waiting -/

def futexWait (addr : UInt64) (compare : UInt32) : Answer M UInt64 :=
  let (cur, memory) := read32 m.memory addr
  let m := { m with memory }
  if cur ≠ compare then .ok (serr .eagain, m) else m.parkMe (sok 0) addr

/-- A timed wait parked: its deadline and its place in the order of timed waits. -/
def parkUntil (addr deadline : UInt64) : Machine M :=
  let t := m.threads
  let i := t.threadIndex t.activeTid
  { m with
    threads := { (t.park addr t.activeTid).setDeadline i deadline (t.parkSeq + 1) with
      parkSeq := t.parkSeq + 1 } }

def futexWaitTimeout (addr : UInt64) (compare : UInt32) (hasDeadline : Bool) (deadline : UInt64) :
    Answer M UInt64 :=
  let (cur, memory) := read32 m.memory addr
  let m := { m with memory }
  if cur ≠ compare then .ok (serr .eagain, m)
  else if m.threads.spec ≠ 3 ∨ hasDeadline = false then m.parkMe (sok 0) addr
  else if deadline ≤ m.threads.vclockNs then
    -- already expired: no park, one tick, and from revision 2 others run
    let m := { m with threads := m.threads.advance Threads.tickNs }
    if 2 ≤ m.threads.kitRevision then m.yieldValue (serr .etimedout) else .ok (serr .etimedout, m)
  else (m.parkUntil addr deadline).yieldValue (sok 0)

/-! ## Locks -/

def futexWaiters : UInt32 := 0x80000000

def futexLockPi (addr : UInt64) : Answer M UInt64 :=
  let (cur, memory) := read32 m.memory addr
  if cur = 0 then
    .ok (sok 0, { m with memory := write32 memory addr m.threads.activeTid })
  else
    let (cur, memory) := read32 memory addr
    parkMe { m with memory := write32 memory addr (cur ||| futexWaiters) } (sok 0) addr

/-- The lock goes to the thread that waited longest for it, and that thread runs. -/
def futexUnlockPi (addr : UInt64) : Answer M UInt64 :=
  match m.threads.unparkOne addr with
  | (some (tid, more), t) =>
    let word := if more then tid ||| futexWaiters else tid
    switched (write32 m.memory addr word) (t.swapTo m.context tid (sok 0))
  | (none, t) => .ok (sok 0, { m with threads := t, memory := write32 m.memory addr 0 })

end Machine

end MiniBox
