import MiniBox.Threads.Calls

/-!
# Thread and time system calls

The arms of the dispatcher that start, end, park and wake threads, and the ones that read
the clock or let it pass.  Each checks the addresses it is handed before it follows one,
and answers `EFAULT` for one the guest may not use.  In a machine before spec 3 the clock
stands still and a sleep only lets others run.
-/

namespace MiniBox

open Lib GuestMemory

/-- What a system call asks of the guest's memory besides. -/
class GuestAccess (M : Type) extends GuestMemory M where
  /-- `guest_can` -/
  can : M → (addr len : UInt64) → (write : Bool) → Bool
  /-- `mb_block_munmap`, whatever it answers -/
  munmap : M → Range → M

open GuestAccess

/-! ## Times -/

/-- `mb_host_set_clock_start`: the start in nanoseconds, or why it is refused. -/
def setClockStart (isSealed : Bool) (unixSeconds : UInt64) : Except String UInt64 :=
  if isSealed then .error "the clock's start is set before the machine is sealed"
  else if Threads.clockStartMaxSec < unixSeconds then
    .error "the clock cannot start later than 2200-01-01"
  else .ok (unixSeconds * 1000000000)

/-- A timespec Linux refuses: a negative field, or a second's worth of nanoseconds. -/
def badTime (sec nsec : UInt64) : Bool :=
  decide (sec.toInt64 < 0) || decide (nsec.toInt64 < 0) || decide
    ((1000000000 : Int64) ≤ nsec.toInt64)

/-- An absolute time, as the clock counts: past its start, and 0 at the start or before. -/
def pastStart (start target : UInt64) : UInt64 := if start < target then target - start else 0

/-- The futex operations, `FUTEX_PRIVATE_FLAG` and `FUTEX_CLOCK_REALTIME` put aside. -/
inductive FutexOp where
  | wait
  | wake
  | requeue
  | lockPi
  | unlockPi
  | waitBitset
  | wakeBitset
  | other
  deriving DecidableEq

def FutexOp.ofWord (a : UInt64) : FutexOp :=
  match a.toUInt32 &&& ~~~(128 ||| 256) with
  | 0 => .wait
  | 1 => .wake
  | 3 => .requeue
  | 6 => .lockPi
  | 7 => .unlockPi
  | 9 => .waitBitset
  | 10 => .wakeBitset
  | _ => .other

/-- The operations that read the word they are handed. -/
def FutexOp.waits (op : FutexOp) : Bool := op == .wait || op == .waitBitset

/-- The operations that write it. -/
def FutexOp.locks (op : FutexOp) : Bool := op == .lockPi || op == .unlockPi

namespace Machine

variable {M : Type} [GuestAccess M] (m : Machine M)

def readTimespec (addr : UInt64) : (UInt64 × UInt64) × Machine M :=
  let (sec, memory) := read64 m.memory addr
  let (nsec, memory) := read64 memory (addr + 8)
  ((sec, nsec), { m with memory })

def writeTimespec (addr sec nsec : UInt64) : Machine M :=
  { m with memory := write64 (write64 m.memory addr sec) (addr + 8) nsec }

/-! ## The clock -/

/-- `NR_clock_gettime`, with the clock's start. -/
def clockGettime (start ts : UInt64) : Answer M UInt64 :=
  if !can m.memory ts 16 true then .ok (serr .efault, m)
  else if m.threads.spec = 3 then
    -- every read ticks, then yields: a spinner on the clock lets the others run
    let m := { m with threads := m.threads.advance Threads.tickNs }
    let now := start + m.threads.vclockNs
    (m.writeTimespec ts (now / 1000000000) (now % 1000000000)).yieldValue (sok 0)
  else .ok (sok 0, m.writeTimespec ts (start / 1000000000) (start % 1000000000))

/-- `NR_nanosleep`. -/
def nanosleep (req : UInt64) : Answer M UInt64 :=
  if m.threads.spec ≠ 3 then m.yield
  else if !can m.memory req 16 false then .ok (serr .efault, m)
  else
    let ((sec, nsec), m) := m.readTimespec req
    if badTime sec nsec then .ok (serr .einval, m)
    else yield { m with threads := m.threads.advance (m.threads.nsOf sec nsec) }

/-- The clock of a `clock_nanosleep`: moved by the time asked for, or up to it. -/
def sleepUntil (t : Threads) (start flags target : UInt64) : Threads :=
  if flags &&& 1 ≠ 0 then
    let rel := pastStart start target
    if t.vclockNs < rel then t.advance (rel - t.vclockNs) else t
  else t.advance target

/-- `NR_clock_nanosleep`, with the clock's start. -/
def clockNanosleep (start flags req rem : UInt64) : Answer M UInt64 :=
  if m.threads.spec ≠ 3 then m.yield
  else if !can m.memory req 16 false then .ok (serr .efault, m)
  else
    let ((sec, nsec), m) := m.readTimespec req
    if badTime sec nsec then .ok (serr .einval, m)
    else
      let t := sleepUntil m.threads start flags (m.threads.nsOf sec nsec)
      let m := { m with threads := t }
      if rem = 0 then m.yield
      else if !can m.memory rem 16 true then .ok (serr .efault, m)
      else (m.writeTimespec rem 0 0).yield

/-! ## Threads -/

/-- `NR_wbx_clone`: the pthread struct is the thread pointer itself. -/
def wbxClone (threadArea childRsp childRip childTid parentTid : UInt64) : UInt64 × Machine M :=
  if threadArea = 0 then (serr .einval, m)
  else if !can m.memory threadArea (14 * 8) false then (serr .efault, m)
  else if !can m.memory (childRsp - 16) 16 true || !can m.memory parentTid 4 true then
    (serr .efault, m)
  else
    match m.spawn threadArea childRsp childRip childTid parentTid threadArea with
    | (.error e, m) => (serr e, m)
    | (.ok tid, m) => (sok tid.toUInt64, m)

/-- `NR_exit`: an unmap of the thread's own stack that was held is done once the thread is
off it. -/
def exitThread : Answer M UInt64 :=
  let (held, threads) := m.threads.takeHeldUnmap
  match exit { m with threads } with
  | .error e => .error e
  | .ok (r, m) =>
    match held with
    | none => .ok (r, m)
    | some range => .ok (r, { m with memory := munmap m.memory range })

/-- `NR_tkill` and `NR_tgkill`: signal 0 asks whether a thread exists. -/
def tkill (tid sig : UInt64) : Answer M UInt64 :=
  if sig = 0 then
    .ok (if (m.threads.findThread tid.toUInt32).isSome then sok 0 else serr .esrch, m)
  else if sig = 6 then .error (.guest "the core aborted", m.memory)
  else
    .error (.guest ("the core raised signal " ++ toString sig.toNat ++ " against itself"), m.memory)

/-- A wake in spec 3 lets the woken run; how many there were is this thread's answer. -/
def wakeAll (addr count : UInt64) : Answer M UInt64 :=
  let (n, threads) := m.threads.futexWake addr count.toUInt32
  let m := { m with threads }
  if m.threads.spec = 3 then m.yieldValue (sok (UInt64.ofNat n)) else .ok (sok (UInt64.ofNat n), m)

/-- The operations of `NR_futex` that have no deadline. -/
def futexPlain (op : FutexOp) (addr val timeout addr2 : UInt64) :
    Answer M UInt64 :=
  match op with
  | .wait => m.futexWait addr val.toUInt32
  | .waitBitset => m.futexWait addr val.toUInt32
  | .wake => m.wakeAll addr val
  | .wakeBitset => m.wakeAll addr val
  | .requeue =>
    let (n, threads) := m.threads.futexRequeue addr addr2 val.toUInt32 timeout.toUInt32
    .ok (sok (UInt64.ofNat n), { m with threads })
  | .lockPi => m.futexLockPi addr
  | .unlockPi => m.futexUnlockPi addr
  | .other => .ok (serr .enosys, m)

/-- `NR_futex`, with the clock's start: the timeout of a wait is relative, that of a bitset
wait absolute. -/
def futex (start addr word val timeout addr2 : UInt64) : Answer M UInt64 :=
  let op := FutexOp.ofWord word
  if op.waits && !can m.memory addr 4 false then .ok (serr .efault, m)
  else if op.locks && !can m.memory addr 4 true then .ok (serr .efault, m)
  else if m.threads.spec = 3 ∧ op.waits ∧ timeout ≠ 0 then
    if !can m.memory timeout 16 false then .ok (serr .efault, m)
    else
      let ((sec, nsec), m) := m.readTimespec timeout
      if badTime sec nsec then .ok (serr .einval, m)
      else
        let t := m.threads.nsOf sec nsec
        let deadline :=
          if op = .wait then m.threads.nsAdd m.threads.vclockNs t else pastStart start t
        m.futexWaitTimeout addr val.toUInt32 true deadline
  else m.futexPlain op addr val timeout addr2

end Machine

/-! ## All of them -/

/-- A thread or time system call with the arguments it reads. -/
inductive ThreadCall where
  | clockGettime (ts : UInt64)
  | nanosleep (req : UInt64)
  | clockNanosleep (flags req rem : UInt64)
  | schedYield
  | wbxClone (threadArea childRsp childRip childTid parentTid : UInt64)
  | exit
  | tkill (tid sig : UInt64)
  | setTidAddress (addr : UInt64)
  | gettid
  | futex (addr word val timeout addr2 : UInt64)

def ThreadCall.run {M : Type} [GuestAccess M] (start : UInt64) (m : Machine M) :
    ThreadCall → Answer M UInt64
  | .clockGettime ts => m.clockGettime start ts
  | .nanosleep req => m.nanosleep req
  | .clockNanosleep flags req rem => m.clockNanosleep start flags req rem
  | .schedYield => m.schedYield
  | .wbxClone threadArea childRsp childRip childTid parentTid =>
    .ok (m.wbxClone threadArea childRsp childRip childTid parentTid)
  | .exit => m.exitThread
  | .tkill tid sig => m.tkill tid sig
  -- an address the host may not write is not kept
  | .setTidAddress addr => m.setTidAddress (if can m.memory addr 4 true then addr else 0)
  | .gettid => .ok (sok m.threads.activeTid.toUInt64, m)
  | .futex addr word val timeout addr2 => m.futex start addr word val timeout addr2

end MiniBox
