import MiniBox.Block.Arena
import MiniBox.Lib.Queues

/-!
# The thread set

Guest threads are green threads: one runs at a time, and a switch swaps the stack pointer
and the thread pointer in the context.  The set keeps them in an array sorted by id, with
two arrays beside it at the same indices: the deadline of a timed wait, 0 for none, and
the mark that orders waits parked for one deadline.  A thread that waits stands in the
queue of the address it waits on.

`swap_to_next` runs the next runnable thread above the active one, or the first.  In a
machine of spec 3 that has none, it moves the clock to the earliest deadline and looks
again.  Both loops of the scheduler run on fuel here, and neither runs out of it.
-/

namespace MiniBox

open Lib

/-! ## Words handed to the guest -/

/-- `mb_linux_errno`: the guest's number of an error. -/
def Errno.linux : Errno → UInt64
  | .enoent => 2
  | .esrch => 3
  | .eio => 5
  | .ebadf => 9
  | .eagain => 11
  | .enomem => 12
  | .eacces => 13
  | .efault => 14
  | .ebusy => 16
  | .eexist => 17
  | .einval => 22
  | .efbig => 27
  | .enospc => 28
  | .espipe => 29
  | .enosys => 38
  | .enotsup => 95
  | .eafnosupport => 97
  | .etimedout => 110

def sok (v : UInt64) : UInt64 := v

def serr (e : Errno) : UInt64 := 0 - e.linux

/-! ## Threads -/

/-- `tstate`.  A loaded word may be neither. -/
inductive TState where
  | runnable
  | waiting
  | other (word : UInt32) (neither : 2 ≤ word)
  deriving DecidableEq

/-- `gthread`. -/
structure GThread where
  tid : UInt32
  state : TState := .runnable
  /-- return value handed to the guest when next run -/
  rax : UInt64 := 0
  /-- stack pointer when next run -/
  rsp : UInt64 := 0
  threadArea : UInt64 := 0
  /-- the word cleared when the thread exits -/
  tidAddress : UInt64 := 0
  /-- this thread's own stack -/
  stack : Range := ⟨0, 0⟩
  /-- an unmap of that stack, held until the thread has left it -/
  pending : Range := ⟨0, 0⟩
  deriving DecidableEq

/-- What a thread whose wait timed out is left as. -/
def GThread.timedOut (g : GThread) : GThread :=
    { g with state := .runnable, rax := serr .etimedout }

/-- The part of `mb_context` a switch, a save or a load touches. -/
structure Context where
  guestRsp : UInt64
  threadArea : UInt64
  guestFcw : UInt16
  guestMxcsr : UInt32
  deriving DecidableEq

/-- `mb_threads`. -/
structure Threads where
  nextTid : UInt32
  activeTid : UInt32
  /-- sorted by id, ascending -/
  threads : List GThread
  /-- who waits on which address -/
  futicies : Queues UInt64 UInt32
  /-- the machine spec the guest declared -/
  spec : Nat
  /-- the virtual clock, past the clock's start -/
  vclockNs : UInt64
  /-- beside `threads`: when a timed wait ends, 0 for none -/
  deadlines : List UInt64
  /-- beside `threads`: the order of timed waits -/
  seqs : List UInt64
  parkSeq : UInt64
  kitRevision : UInt32
  deriving DecidableEq

namespace Threads

variable (t : Threads)

/-! ## The thread arrays -/

def findThread (tid : UInt32) : Option GThread := t.threads.find? (·.tid == tid)

/-- The index of `find_thread`; the number of threads when there is none. -/
def threadIndex (tid : UInt32) : Nat := t.threads.findIdx (·.tid == tid)

/-- A change to the thread `find_thread` gives. -/
def onThread (tid : UInt32) (f : GThread → GThread) : Threads :=
  { t with threads := t.threads.modify (t.threadIndex tid) f }

/-- A deadline and a mark for the thread at an index. -/
def setDeadline (i : Nat) (deadline seq : UInt64) : Threads :=
  { t with deadlines := t.deadlines.set i deadline, seqs := t.seqs.set i seq }

/-- Where a new id goes: below the ids above it, counted from the end. -/
def insertIndex (tid : UInt32) : Nat := (t.threads.reverse.dropWhile fun g => tid < g.tid).length

def insertThread (g : GThread) : Threads :=
  let i := t.insertIndex g.tid
  { t with
    threads := t.threads.insertIdx i g
    deadlines := t.deadlines.insertIdx i 0
    seqs := t.seqs.insertIdx i 0 }

def removeThread (tid : UInt32) : Threads :=
  let i := t.threadIndex tid
  { t with
    threads := t.threads.eraseIdx i
    deadlines := t.deadlines.eraseIdx i
    seqs := t.seqs.eraseIdx i }

/-! ## The wait queues -/

/-- Who waits on an address, first come first. -/
def waiters (addr : UInt64) : List UInt32 := t.futicies.queued addr

def isWaiting (tid : UInt32) : Bool :=
  match t.findThread tid with
  | none => false
  | some g => g.state == .waiting

/-- `park_other`, and what `park_me` does before it switches: behind the others in the
queue of the address. -/
def park (addr : UInt64) (tid : UInt32) : Threads :=
  { t.onThread tid (fun g => { g with state := .waiting }) with
    futicies := t.futicies.extend addr [tid] }

/-- A woken thread: no deadline is left to expire over its return. -/
def wake (tid : UInt32) : Threads :=
  (t.onThread tid fun g => { g with state := .runnable }).setDeadline (t.threadIndex tid) 0 0

/-- `unpark_one`: the first entry that names a waiting thread, and whether more follow.
The entries before it leave the queue with it. -/
def unparkOne (addr : UInt64) : Option (UInt32 × Bool) × Threads :=
  match (t.waiters addr).dropWhile fun tid => !t.isWaiting tid with
  | [] => (none, { t with futicies := t.futicies.put addr [] })
  | tid :: rest =>
    (some (tid, !rest.isEmpty), { t.wake tid with futicies := t.futicies.put addr rest })

/-- `unqueue`: a thread nobody may wake any more leaves every queue. -/
def unqueue (tid : UInt32) : Threads := { t with futicies := t.futicies.without (· == tid) }

/-! ## Virtual time -/

def clockStartMaxSec : UInt64 := 7258118400

/-- `MB_V3_CLOCK_MAX`: the clock's start and the clock have a sum that fits. -/
def clockMax : UInt64 := 0xffffffffffffffff - clockStartMaxSec * 1000000000

/-- `MB_V3_TICK_NS`. -/
def tickNs : UInt64 := 1000

def nsOf (sec nsec : UInt64) : UInt64 :=
  if 2 ≤ t.kitRevision && decide ((clockMax - nsec) / 1000000000 < sec) then clockMax
  else sec * 1000000000 + nsec

def nsAdd (a b : UInt64) : UInt64 :=
  if 2 ≤ t.kitRevision && (decide (clockMax < a) || decide (clockMax - a < b)) then clockMax
  else a + b

/-- A waiting thread whose deadline has come. -/
def due (clock : UInt64) (g : GThread) (deadline : UInt64) : Bool :=
  g.state == .waiting && deadline != 0 && decide (deadline ≤ clock)

def dueAt (i : Nat) : Bool :=
  match t.threads[i]?, t.deadlines[i]? with
  | some g, some deadline => due t.vclockNs g deadline
  | _, _ => false

/-- Whether `expire_due` takes the thread at `i` over the one at `pick`. -/
def sooner (i pick : Nat) : Bool :=
  decide (t.deadlines.getD i 0 < t.deadlines.getD pick 0) ||
    (t.deadlines.getD i 0 == t.deadlines.getD pick 0 && decide
      (t.seqs.getD i 0 < t.seqs.getD pick 0))

/-- The thread `expire_due` takes next: the earliest deadline, then the earliest mark. -/
def pickDue : Option Nat :=
  (List.range t.threads.length).foldl
    (fun pick i =>
      if t.dueAt i then
        match pick with
        | none => some i
        | some p => if t.sooner i p then some i else some p
      else pick)
    none

def expireAt (i : Nat) : Threads :=
  match t.threads[i]? with
  | none => t
  | some g =>
    (({ t with threads := t.threads.modify i GThread.timedOut }).unqueue g.tid).setDeadline i 0 0

def expireSteps : Nat → Threads → Threads
  | 0, t => t
  | fuel + 1, t =>
    match t.pickDue with
    | none => t
    | some i => expireSteps fuel (t.expireAt i)

/-- Each turn of the loop makes one thread runnable. -/
def expireDue : Threads := expireSteps t.threads.length t

def advance (ns : UInt64) : Threads := expireDue { t with vclockNs := t.nsAdd t.vclockNs ns }

end Threads

/-! ## Scheduling -/

/-- How the scheduler can end. -/
inductive Death where
  /-- `mb_host_guest_death`, with what it says -/
  | guest (why : String)
  /-- host code follows a null thread -/
  | noThread
  /-- the model's fuel is spent -/
  | spins
  deriving DecidableEq

namespace Threads

/-- The states a deadlock's text quotes, as many as its buffer holds. -/
def quoteStates (threads : List GThread) : String :=
  threads.foldl
    (fun said g =>
      if said.length + 16 < 160 then
        said ++ " t" ++ toString g.tid.toNat ++ "=" ++ (if g.state = .runnable then "R" else "W")
      else said)
    ""

def deadlock (threads : List GThread) : Death :=
  .guest ("every thread of the core is waiting and none can wake the others (a deadlock:" ++
    quoteStates threads ++ ")")

variable (t : Threads)

/-- What the active thread leaves behind for the next time it runs. -/
def store (c : Context) (ret : UInt64) : Threads :=
  t.onThread t.activeTid fun g =>
    { g with rax := ret, rsp := c.guestRsp, threadArea := c.threadArea }

def swapTo (c : Context) (tid : UInt32) (ret : UInt64) : Except Death
    (UInt64 × Threads × Context) :=
  match t.findThread t.activeTid, (t.store c ret).findThread tid with
  | some _, some nw =>
    .ok (nw.rax, { t.store c ret with activeTid := tid },
      { c with guestRsp := nw.rsp, threadArea := nw.threadArea })
  | _, _ => .error .noThread

/-- The first runnable thread above the active one, or the first of all. -/
def nextRunnable : Option UInt32 :=
  match t.threads.find? fun g => decide (t.activeTid < g.tid) && g.state == .runnable with
  | some g => some g.tid
  | none => (t.threads.find? fun g => g.state == .runnable).map GThread.tid

/-- The earliest deadline anyone waits for, 0 when there is none. -/
def earliest : UInt64 :=
  (t.threads.zip t.deadlines).foldl
    (fun dl gd =>
      if gd.1.state == .waiting && gd.2 != 0 && (dl == 0 || decide (gd.2 < dl)) then gd.2 else dl)
    0

/-- The clock moved to the earliest deadline, and what is due then expired. -/
def fastForward : Threads := expireDue { t with vclockNs := t.earliest }

def swapLoop : Nat → Threads → Context → UInt64 → Except Death (UInt64 × Threads × Context)
  | 0, _, _, _ => .error .spins
  | fuel + 1, t, c, ret =>
    match t.nextRunnable, t.findThread t.activeTid with
    | _, none => .error .noThread
    | some best, some old =>
      if best = t.activeTid then .ok (old.rax, t, c) else t.swapTo c best ret
    | none, some _ =>
      if t.spec = 3 ∧ t.earliest ≠ 0 then
        let t := t.fastForward
        -- what expiry stored for the parking thread itself is kept
        match t.findThread t.activeTid with
        | none => .error .noThread
        | some old => swapLoop fuel t c old.rax
      else .error (deadlock t.threads)

/-- `swap_to_next`.  Each turn of its loop that finds nobody expires somebody. -/
def swapToNext (c : Context) (ret : UInt64) : Except Death (UInt64 × Threads × Context) :=
  swapLoop (t.threads.length + 1) (t.store c ret) c ret

end Threads

end MiniBox
