import MiniBox.Host.Clock
import MiniBox.Threads.Yield

/-!
# What time calls come to

A guest's absolute time is on the scale of its readings, which begin at the clock's start; the
clock itself counts from 0.  `clock_nanosleep` and the bitset wait saturate the time at the
clock's ceiling first and take the start off it after.  So a time between the ceiling and the
last reading there can be, the start plus the ceiling, comes out too early by what was cut
off.  `ClockRun.absolute_iff` says when that can be seen.

The time calls check the addresses they are handed, and answer `EFAULT` or `EINVAL` before they
do anything.  One check comes late: `clock_nanosleep` asks about the remainder only once it has
slept.  `ThreadCall.refused_iff` says when that can be seen.  The word a call returns is that
of the thread that runs next, so `Machine.answered` looks up what the caller is left with.
-/

namespace MiniBox

open Lib GuestAccess

/-! ## Times on two scales -/

/-- A timespec in nanoseconds. -/
def timeOf (sec nsec : UInt64) : Nat := sec.toNat * 1000000000 + nsec.toNat

section Scales

variable {t : Threads}

theorem Threads.nsOf_toNat (revision : 2 ≤ t.kitRevision) {sec nsec : UInt64}
    (few : nsec.toNat < 1000000000) :
    (t.nsOf sec nsec).toNat = min (timeOf sec nsec) clockMax.toNat := by
  have top := clockMax_toNat
  have billion : (1000000000 : UInt64).toNat = 1000000000 := rfl
  have inside : nsec ≤ clockMax := by
    rw [UInt64.le_iff_toNat_le]
    omega
  unfold nsOf timeOf
  simp only [revision, decide_true, Bool.true_and, decide_eq_true_eq]
  have over_iff : (clockMax - nsec) / 1000000000 < sec ↔
      clockMax.toNat < sec.toNat * 1000000000 + nsec.toNat := by
    rw [UInt64.lt_iff_toNat_lt, UInt64.toNat_div, UInt64.toNat_sub_of_le _ _ inside, billion]
    omega
  split
  next huge =>
    have huge := over_iff.mp huge
    omega
  next fits =>
    have fits := mt over_iff.mpr fits
    rw [UInt64.toNat_add, UInt64.toNat_mul, billion]
    omega

theorem pastStart_toNat (start target : UInt64) :
    (pastStart start target).toNat = target.toNat - start.toNat := by
  unfold pastStart
  split
  next after => exact UInt64.toNat_sub_of_le _ _ (UInt64.le_of_lt after)
  next early =>
    rw [UInt64.lt_iff_toNat_lt] at early
    rw [show (0 : UInt64).toNat = 0 from rfl]
    omega

theorem Threads.nsAdd_toNat (revision : 2 ≤ t.kitRevision) {a b : UInt64}
    (inside : a ≤ clockMax) :
    (t.nsAdd a b).toNat = min (a.toNat + b.toNat) clockMax.toNat := by
  have top := clockMax_toNat
  have low : ¬ clockMax < a := UInt64.not_lt.mpr inside
  unfold nsAdd
  simp only [revision, decide_true, Bool.true_and, low, decide_false, Bool.false_or,
    decide_eq_true_eq]
  have over_iff : clockMax - a < b ↔ clockMax.toNat < a.toNat + b.toNat := by
    rw [UInt64.lt_iff_toNat_lt, UInt64.toNat_sub_of_le _ _ inside]
    rw [UInt64.le_iff_toNat_le] at inside
    omega
  split
  next huge =>
    have huge := over_iff.mp huge
    omega
  next fits =>
    have fits := mt over_iff.mpr fits
    rw [UInt64.toNat_add]
    omega

theorem Threads.expireSteps_clock : ∀ (fuel : Nat) (t : Threads),
    (expireSteps fuel t).vclockNs = t.vclockNs
  | 0, _ => rfl
  | fuel + 1, t => by
    rw [expireSteps]
    split
    · rfl
    next i _ =>
      rw [expireSteps_clock fuel]
      unfold expireAt
      split <;> rfl

theorem Threads.advance_clock (t : Threads) (ns : UInt64) :
    (t.advance ns).vclockNs = t.nsAdd t.vclockNs ns :=
  expireSteps_clock _ _

end Scales

/-! ## Absolute times -/

/-- What `clock_gettime` hands over next: it ticks first. -/
def Threads.nextReading (t : Threads) (start : UInt64) : UInt64 :=
  start + (t.advance tickNs).vclockNs

section Absolute

variable {M : Type} [GuestAccess M]

/-- The deadline of a bitset wait with its timeout at an address. -/
def Machine.bitsetDeadline (m : Machine M) (start timeout : UInt64) : UInt64 :=
  let time := (m.readTimespec timeout).1
  pastStart start (m.threads.nsOf time.1 time.2)

/-- Once a `clock_nanosleep` is back, the clock reads `time` or later, however the machine goes
on. -/
def Machine.SleepsUntil (m : Machine M) (start flags req : UInt64) (time : Nat) : Prop :=
  ∀ rem w m', m.clockNanosleep start flags req rem = .ok (w, m') →
    ∀ t', Relation.ReflTransGen (Called M start) m'.threads t' → time ≤ (t'.nextReading start).toNat

/-- The deadline of a bitset wait is ahead of every clock, from now on, that reads earlier than
`time`. -/
def Machine.WaitsUntil (m : Machine M) (start timeout : UInt64) (time : Nat) : Prop :=
  ∀ clock, m.threads.vclockNs ≤ clock → clock ≤ Threads.clockMax →
    start.toNat + clock.toNat < time → clock < m.bitsetDeadline start timeout

variable {m : Machine M} {start seconds flags req : UInt64} {sec nsec : UInt64} {revision : UInt32}
  {rows : List Row}

/-- A bitset wait with a time that is accepted is a wait for its deadline. -/
theorem Machine.futex_bitset (v3 : m.threads.spec = 3) {addr word val timeout addr2 : UInt64}
    (op : FutexOp.ofWord word = .waitBitset) (readable : can m.memory addr 4 false = true)
    (timed : timeout ≠ 0) (there : can m.memory timeout 16 false = true)
    (good : badTime (m.readTimespec timeout).1.1 (m.readTimespec timeout).1.2 = false) :
    m.futex start addr word val timeout addr2 =
      (m.readTimespec timeout).2.futexWaitTimeout addr val.toUInt32 true
        (m.bitsetDeadline start timeout) := by
  unfold futex
  rw [op]
  dsimp only
  rw [if_neg (by simp [readable]), if_neg (by simp [FutexOp.locks]),
    if_pos ⟨v3, rfl, timed⟩, if_neg (by simp [there]), if_neg (by simp [good]),
    if_neg (by simp)]
  rfl

theorem Machine.bitsetDeadline_eq (asked : (m.readTimespec req).1 = (sec, nsec)) :
    m.bitsetDeadline start req = pastStart start (m.threads.nsOf sec nsec) := by
  unfold bitsetDeadline
  rw [asked]

theorem Machine.sleepUntil_clock {t : Threads} (timely : t.Timely rows) (absolute : flags &&& 1 ≠ 0)
    (start target : UInt64) (inside : target ≤ Threads.clockMax) :
    target.toNat - start.toNat ≤ (sleepUntil t start flags target).vclockNs.toNat := by
  rw [← pastStart_toNat]
  have below := UInt64.le_trans (pastStart_le start target) inside
  unfold sleepUntil
  rw [if_pos absolute]
  dsimp only
  split
  next ahead =>
    rw [Threads.advance_clock, Threads.nsAdd_toNat timely.revision timely.clock,
      UInt64.toNat_sub_of_le _ _ (UInt64.le_of_lt ahead)]
    rw [UInt64.lt_iff_toNat_lt] at ahead
    rw [UInt64.le_iff_toNat_le] at below
    omega
  next reached => exact UInt64.le_iff_toNat_le.mp (UInt64.not_lt.mp reached)

/-- Readings never fall behind the clock. -/
theorem Threads.Timely.reading {t : Threads} (timely : t.Timely rows)
    (accepted : setClockStart false seconds = .ok start) :
    start.toNat + t.vclockNs.toNat ≤ (t.nextReading start).toNat := by
  obtain ⟨⟨rows', after⟩, forward⟩ := timely.advance tickNs
  have fits := setClockStart_fits accepted after.clock
  rw [UInt64.le_iff_toNat_le] at forward
  unfold nextReading
  rw [UInt64.toNat_add]
  omega

theorem Threads.Timely.sleepsUntil (timely : m.threads.Timely rows)
    (accepted : setClockStart false seconds = .ok start) (absolute : flags &&& 1 ≠ 0)
    (readable : can m.memory req 16 false = true) (asked : (m.readTimespec req).1 = (sec, nsec))
    (good : badTime sec nsec = false)
    (early : timeOf sec nsec ≤ clockMax.toNat ∨
      timeOf sec nsec ≤ start.toNat + m.threads.vclockNs.toNat) :
    m.SleepsUntil start flags req (timeOf sec nsec) := by
  intro rem w m' ran t' calls
  have few := badTime_nsec good
  have inside := nsOf_le timely.revision sec few
  have goes := timely.slept m.context start flags rem readable (by rw [asked]; exact good)
  rw [asked, show Machine.clockNanosleep ⟨m.threads, m.context, m.memory⟩ start flags req rem = _
    from ran] at goes
  cases goes with
  | ran w next =>
    obtain ⟨⟨rows', after⟩, since⟩ := next
    obtain ⟨⟨rows'', last⟩, later⟩ := after.calls calls
    have reading := last.reading accepted
    have slept := Machine.sleepUntil_clock timely absolute start _ inside
    have forward := (timely.sleepUntil start flags (m.threads.nsOf sec nsec)).2
    rw [nsOf_toNat timely.revision few] at slept
    dsimp only at since
    rw [UInt64.le_iff_toNat_le] at since later forward
    omega

theorem Threads.Timely.waitsUntil (timely : m.threads.Timely rows)
    (asked : (m.readTimespec req).1 = (sec, nsec)) (good : badTime sec nsec = false)
    (early : timeOf sec nsec ≤ clockMax.toNat ∨
      timeOf sec nsec ≤ start.toNat + m.threads.vclockNs.toNat) :
    m.WaitsUntil start req (timeOf sec nsec) := by
  intro clock from_ _ before
  have few := badTime_nsec good
  rw [UInt64.le_iff_toNat_le] at from_
  rw [Machine.bitsetDeadline_eq asked, UInt64.lt_iff_toNat_lt, pastStart_toNat,
    nsOf_toNat timely.revision few]
  omega

/-- An absolute sleep or wait lasts until its time, if the clock's ceiling or the reading of
now reaches that far.  Any other time the clock can still read is cut off at the ceiling and
comes too early. -/
theorem ClockRun.absolute_iff (accepted : setClockStart false seconds = .ok start)
    (recent : 2 ≤ revision) (run : ClockRun M start revision m.threads) (absolute : flags &&& 1 ≠ 0)
    (readable : can m.memory req 16 false = true) (asked : (m.readTimespec req).1 = (sec, nsec))
    (good : badTime sec nsec = false) :
    (∀ addr word val addr2, FutexOp.ofWord word = .waitBitset → can m.memory addr 4 false = true →
      req ≠ 0 → m.futex start addr word val req addr2 =
        (m.readTimespec req).2.futexWaitTimeout addr val.toUInt32 true
        (m.bitsetDeadline start req)) ∧
    (m.SleepsUntil start flags req (timeOf sec nsec) ∧ m.WaitsUntil start req (timeOf sec nsec) ↔
      timeOf sec nsec ≤ Threads.clockMax.toNat ∨
        timeOf sec nsec ≤ start.toNat + m.threads.vclockNs.toNat) := by
  obtain ⟨rows, timely⟩ := run.timely recent
  have few := badTime_nsec good
  refine ⟨fun addr word val addr2 op there timed => ?_, fun both => ?_, fun early => ⟨?_, ?_⟩⟩
  · exact Machine.futex_bitset timely.spec op there timed readable (by rw [asked]; exact good)
  · -- the clock that has just reached the ceiling's time, or stands past it, shows it
    by_contra late
    obtain ⟨cut, ahead⟩ := not_or.mp late
    have inside := Threads.nsOf_le timely.revision sec few
    have rel := pastStart_toNat start (m.threads.nsOf sec nsec)
    rw [Threads.nsOf_toNat timely.revision few] at rel
    have wait := both.2
    unfold Machine.WaitsUntil at wait
    rw [Machine.bitsetDeadline_eq asked] at wait
    rcases UInt64.le_total m.threads.vclockNs (pastStart start (m.threads.nsOf sec nsec)) with
      before | past
    · refine UInt64.lt_irrefl _ (wait _ before (UInt64.le_trans (pastStart_le _ _) inside) ?_)
      have under := UInt64.le_iff_toNat_le.mp before
      omega
    · refine absurd (wait _ (UInt64.le_refl _) timely.clock (by omega)) (UInt64.not_lt.mpr past)
  · exact timely.sleepsUntil accepted absolute readable asked good early
  · exact timely.waitsUntil asked good early

end Absolute

/-- A memory that may only be read, and reads as a timespec from every 16 bytes on. -/
structure Told (sec nsec : UInt64) where
  deriving DecidableEq

instance (sec nsec : UInt64) : GuestAccess (Told sec nsec) where
  read32 m _ := (0, m)
  read64 m addr := (if addr &&& 8 = 0 then sec else nsec, m)
  write32 m _ _ := m
  write64 m _ _ := m
  protectStack m _ := (.ok (), m)
  can _ _ _ write := !write
  munmap m _ := m

/-- A machine of spec 3 at its start, with a time in its memory. -/
def Machine.told (sec nsec : UInt64) : Machine (Told sec nsec) :=
  ⟨(Threads.new.setSpec 3).setKitRevision 2, .zero, {}⟩

/-- An ordinary time: five seconds past a clock that starts at one. -/
theorem ClockRun.absolute_iff_early : (Machine.told 6 0).SleepsUntil 1000000000 1 16 6000000000 ∧
      (Machine.told 6 0).WaitsUntil 1000000000 16 6000000000 := by
  have accepted : setClockStart false 1 = .ok 1000000000 := by decide
  have run : ClockRun (Told 6 0) 1000000000 2 (Machine.told 6 0).threads := .new
  have asked : ((Machine.told 6 0).readTimespec 16).1 = (6, 0) := by decide
  exact (absolute_iff accepted (by decide) run (show (1 : UInt64) &&& 1 ≠ 0 by decide) rfl asked
    (by decide)).2.mpr (.inl (by decide))

/-- A time past the ceiling that a clock started at one second can read: a sleep until it ends
before it, and a wait for it is due before it. -/
theorem ClockRun.absolute_late : setClockStart false 1 = .ok 1000000000 ∧
    ClockRun (Told 11188625674 0) 1000000000 2 (Machine.told 11188625674 0).threads ∧
      timeOf 11188625674 0 ≤ 1000000000 + Threads.clockMax.toNat ∧
      ¬ (Machine.told 11188625674 0).SleepsUntil 1000000000 1 16 (timeOf 11188625674 0) ∧
      ¬ (Machine.told 11188625674 0).WaitsUntil 1000000000 16 (timeOf 11188625674 0) := by
  refine ⟨by decide, .new, by decide, fun sleeps => ?_, fun waits => ?_⟩
  · have early := sleeps 0 _ _ rfl _ .refl
    revert early
    decide
  · have ahead := waits (Threads.clockMax - 1000000000) (by decide) (by decide) (by decide)
    revert ahead
    decide

/-! ## What the caller is answered -/

/-- What a call answers the thread that made it: the word that comes back while that thread
runs on, or what is kept for it while another runs. -/
def Machine.answered {M : Type} (caller : UInt32) (w : UInt64) (m : Machine M) : Option UInt64 :=
  if m.threads.activeTid = caller then some w else (m.threads.findThread caller).map GThread.rax

/-- The thread `tid`, if there is one, resumes with a word that satisfies `P`. -/
def Threads.Left (P : UInt64 → Prop) (tid : UInt32) (t : Threads) : Prop :=
  ∀ g, t.findThread tid = some g → P g.rax

section Answers

variable {P : UInt64 → Prop} {t t' : Threads} {tid : UInt32}

/-- A change of one thread that leaves its id, and a word that satisfies `P` or its own. -/
theorem Threads.Left.modify (left : t.Left P tid) {i : Nat} {f : GThread → GThread}
    (keeps : ∀ g, (f g).tid = g.tid) (rax : ∀ g, P g.rax → P (f g).rax)
    (same : t'.threads = t.threads.modify i f) : t'.Left P tid := by
  intro g found
  unfold findThread at found
  rw [same] at found
  rcases find?_modify (p := fun g => g.tid == tid) (fun x => by rw [keeps]) i t.threads with
    other | this
  · rw [other] at found
    exact left g found
  · rw [this, Option.map_eq_some_iff] at found
    obtain ⟨before, found, rfl⟩ := found
    exact rax before (left before found)

theorem Threads.Left.expireSteps (late : P (serr .etimedout)) : ∀ (fuel : Nat) {t : Threads},
    t.Left P tid → (Threads.expireSteps fuel t).Left P tid
  | 0, _, left => left
  | fuel + 1, t, left => by
    rw [Threads.expireSteps]
    split
    · exact left
    next i _ =>
      refine Threads.Left.expireSteps late fuel ?_
      unfold Threads.expireAt
      split
      · exact left
      · exact left.modify (f := GThread.timedOut) (fun _ => rfl) (fun _ _ => late) rfl

theorem Threads.store_left {c : Context} {ret : UInt64} (right : P ret) :
    (t.store c ret).Left P t.activeTid := by
  intro g found
  rw [store, findThread_onThread (fun _ => by rfl), Option.map_eq_some_iff] at found
  obtain ⟨before, -, rfl⟩ := found
  exact right

/-- What a switch leaves the thread it switches from: what it stored, or a timeout. -/
theorem Threads.Left.swapLoop (late : P (serr .etimedout)) : ∀ (fuel : Nat) {t t' : Threads}
    {c c' : Context} {ret w : UInt64}, P ret → t.Left P t.activeTid →
    Threads.swapLoop fuel t c ret = .ok (w, t', c') →
    (t'.activeTid = t.activeTid → P w) ∧ (t'.activeTid ≠ t.activeTid → t'.Left P t.activeTid)
  | 0, _, _, _, _, _, _, _, _, ran => by cases ran
  | fuel + 1, t, t', c, c', ret, w, right, left, ran => by
    rw [Threads.swapLoop] at ran
    split at ran
    · cases ran
    next best old next found =>
      split at ran
      · cases ran
        exact ⟨fun _ => left old found, fun other => absurd rfl other⟩
      next other =>
        rw [Threads.swapTo_eq ran]
        exact ⟨fun same => absurd same other, fun _ => Threads.store_left right⟩
    next none_ old found =>
      split at ran
      next forward =>
        dsimp only at ran
        split at ran
        · cases ran
        next old' found' =>
          obtain ⟨-, active⟩ := Threads.Keeps.expireSteps t.threads.length
            { t with vclockNs := t.earliest }
          have left' : t.fastForward.Left P t.fastForward.activeTid := by
            rw [show t.fastForward.activeTid = t.activeTid from active]
            exact Threads.Left.expireSteps late _ (t := { t with vclockNs := t.earliest }) left
          have rest := Threads.Left.swapLoop late fuel (left' old' found') left' ran
          rwa [show t.fastForward.activeTid = t.activeTid from active] at rest
      · cases ran

variable {M : Type} {m m' : Machine M} {ret w a : UInt64}

/-- A thread that lets others run is answered what it asked to be, or a timeout. -/
theorem Machine.answered_yield (ran : m.yieldValue ret = .ok (w, m')) (right : P ret)
    (late : P (serr .etimedout)) (answer : m'.answered m.threads.activeTid w = some a) : P a := by
  obtain ⟨c, next⟩ := switched_eq ran
  obtain ⟨same, other⟩ := Threads.Left.swapLoop late _ (t := m.threads.store m.context ret) right
    (Threads.store_left right) next
  unfold answered at answer
  split at answer
  next back =>
    cases answer
    exact same back
  next switched =>
    obtain ⟨g, found, rfl⟩ := Option.map_eq_some_iff.mp answer
    exact other switched g found

end Answers

/-! ## Refused calls -/

/-- The answers of a call that is refused. -/
def Refusal (w : UInt64) : Prop := w = serr .efault ∨ w = serr .einval

/-- The clock, each thread's state and deadline, and the active thread are the same. -/
structure Threads.SameTimes (t t' : Threads) : Prop where
  clock : t'.vclockNs = t.vclockNs
  states : t'.threads.map (fun g => (g.tid, g.state)) = t.threads.map fun g => (g.tid, g.state)
  deadlines : t'.deadlines = t.deadlines
  active : t'.activeTid = t.activeTid

/-- The calls that read the clock, sleep, or wait until a deadline. -/
def ThreadCall.Timed : ThreadCall → Prop
  | .clockGettime _ => True
  | .nanosleep _ => True
  | .clockNanosleep _ _ _ => True
  | .futex _ word _ timeout _ => (FutexOp.ofWord word).waits = true ∧ timeout ≠ 0
  | _ => False

/-- A `clock_nanosleep` whose time is accepted and whose remainder is not: a sleep that is over
before it begins. -/
def ThreadCall.Spares {M : Type} [GuestAccess M] (start : UInt64) (m : Machine M) : ThreadCall →
    Prop
  | .clockNanosleep flags req rem =>
    let time := (m.readTimespec req).1
    let target := m.threads.nsOf time.1 time.2
    can m.memory req 16 false = true → badTime time.1 time.2 = false → rem ≠ 0 →
      can (m.readTimespec req).2.memory rem 16 true = false →
      if flags &&& 1 ≠ 0 then target.toNat ≤ start.toNat + m.threads.vclockNs.toNat
      else m.threads.nsAdd m.threads.vclockNs target = m.threads.vclockNs ∧ m.threads.pickDue = none
  | _ => True

section Refused

variable {t : Threads} {start : UInt64}

theorem Threads.SameTimes.refl (t : Threads) : t.SameTimes t := ⟨rfl, rfl, rfl, rfl⟩

theorem Threads.expireAt_threads (t : Threads) (i : Nat) :
    (t.expireAt i).threads = t.threads.modify i GThread.timedOut := by
  unfold expireAt
  split
  next none_ =>
    rw [List.getElem?_eq_none_iff] at none_
    exact (List.modify_eq_self none_).symm
  · rfl

/-- Expiry makes no thread wait that can run. -/
theorem Threads.expireSteps_runnable {i : Nat} : ∀ (fuel : Nat) {t : Threads} {g : GThread},
    t.threads[i]? = some g → g.state = .runnable →
    ∃ g', (expireSteps fuel t).threads[i]? = some g' ∧ g'.state = .runnable
  | 0, _, g, here, can => ⟨g, here, can⟩
  | fuel + 1, t, g, here, can => by
    rw [expireSteps]
    split
    · exact ⟨g, here, can⟩
    next j _ =>
      have moved : (t.expireAt j).threads[i]? = some (if j = i then g.timedOut else g) := by
        rw [expireAt_threads, List.getElem?_modify, here]
        rfl
      refine expireSteps_runnable fuel moved ?_
      split
      · rfl
      · exact can

/-- Expiry that finds somebody shows. -/
theorem Threads.SameTimes.pickDue (same : t.SameTimes t.expireDue) : t.pickDue = none := by
  cases pick : t.pickDue with
  | none => rfl
  | some i =>
    have due := Threads.pickDue_some pick
    unfold Threads.dueAt at due
    split at due
    next g deadline here _ =>
      have waits : g.state = .waiting := by
        simp only [Threads.due, Bool.and_eq_true, beq_iff_eq] at due
        exact due.1.1
      obtain ⟨n, length⟩ : ∃ n, t.threads.length = n + 1 := by
        obtain ⟨below, -⟩ := List.getElem?_eq_some_iff.mp here
        exact ⟨t.threads.length - 1, by omega⟩
      have moved : (t.expireAt i).threads[i]? = some g.timedOut := by
        rw [Threads.expireAt_threads, List.getElem?_modify, here]
        simp
      obtain ⟨g', there, runs⟩ := Threads.expireSteps_runnable n moved rfl
      have after : t.expireDue.threads[i]? = some g' := by
        rw [Threads.expireDue, length, Threads.expireSteps, pick]
        exact there
      have state := congrArg (fun states => states[i]?) same.states
      simp only [List.getElem?_map, after, here, Option.map_some, Option.some.injEq,
        Prod.mk.injEq, runs, waits] at state
      cases state.2
    · cases due

theorem Threads.expireDue_none (none_ : t.pickDue = none) : t.expireDue = t := by
  rw [expireDue]
  cases t.threads.length with
  | zero => rfl
  | succ n => rw [expireSteps, none_]

/-- The clock moves by nothing, and nobody is due. -/
theorem Threads.sameTimes_advance (ns : UInt64) :
    t.SameTimes (t.advance ns) ↔ t.nsAdd t.vclockNs ns = t.vclockNs ∧ t.pickDue = none := by
  have still (stays : t.nsAdd t.vclockNs ns = t.vclockNs) : t.advance ns = t.expireDue := by
    rw [advance, stays]
  constructor
  · intro same
    have stays := same.clock
    rw [advance_clock] at stays
    rw [still stays] at same
    exact ⟨stays, same.pickDue⟩
  · intro ⟨stays, none_⟩
    rw [still stays, expireDue_none none_]
    exact .refl t

theorem Machine.sameTimes_sleepUntil (t : Threads) (start flags target : UInt64)
    (inside : 2 ≤ t.kitRevision → target ≤ Threads.clockMax) :
    t.SameTimes (sleepUntil t start flags target) ↔
      if flags &&& 1 ≠ 0 then target.toNat ≤ start.toNat + t.vclockNs.toNat
      else t.nsAdd t.vclockNs target = t.vclockNs ∧ t.pickDue = none := by
  unfold sleepUntil
  dsimp only
  by_cases absolute : flags &&& 1 ≠ 0
  · rw [if_pos absolute, if_pos absolute]
    have past := pastStart_toNat start target
    split
    next ahead =>
      have less := UInt64.lt_iff_toNat_lt.mp ahead
      refine ⟨fun same => absurd same.clock ?_, fun over_ => by omega⟩
      rw [Threads.advance_clock]
      intro stays
      unfold Threads.nsAdd at stays
      have gap := UInt64.toNat_sub_of_le _ _ (UInt64.le_of_lt ahead)
      split at stays
      next top =>
        have bound := inside (by simp only [Bool.and_eq_true,
            decide_eq_true_eq] at top; exact top.1)
        rw [← stays, UInt64.lt_iff_toNat_lt] at ahead
        rw [UInt64.le_iff_toNat_le] at bound
        omega
      · have sum := congrArg UInt64.toNat stays
        have width := (pastStart start target).toNat_lt
        rw [UInt64.toNat_add, gap] at sum
        omega
    next reached =>
      rw [UInt64.not_lt, UInt64.le_iff_toNat_le] at reached
      exact ⟨fun _ => by omega, fun _ => .refl t⟩
  · rw [if_neg absolute, if_neg absolute]
    exact Threads.sameTimes_advance target

variable {M : Type} {m m' : Machine M} {w a : UInt64} {tid : UInt32}

/-- What a thread is answered once it has let others run is no refusal. -/
theorem Machine.yield_unrefused {ret : UInt64} (ran : m.yieldValue ret = .ok (w, m'))
    (right : ¬ Refusal ret) (active : m.threads.activeTid = tid)
    (answer : m'.answered tid w = some a) : ¬ Refusal a := by
  subst active
  exact answered_yield (P := fun w => ¬ Refusal w) ran right (by unfold Refusal; decide)
    answer

theorem Machine.answered_self (m : Machine M) (w : UInt64) :
    m.answered m.threads.activeTid w = some w :=
  if_pos rfl

variable [GuestAccess M]

/-- A refused call has cost nothing. -/
def ThreadCall.Free (start : UInt64) (m : Machine M) (call : ThreadCall) : Prop :=
  ∀ w m' a, call.run start m = .ok (w, m') → m'.answered m.threads.activeTid w = some a →
    Refusal a → m.threads.SameTimes m'.threads

section

variable (v3 : m.threads.spec = 3)
include v3

theorem Machine.clockGettime_free (ts : UInt64) : (ThreadCall.clockGettime ts).Free start m := by
  intro w m' a ran answer refused
  rw [ThreadCall.run, clockGettime, if_pos v3] at ran
  split at ran
  · cases ran
    exact .refl _
  · have active := (Threads.Keeps.advance m.threads Threads.tickNs).2
    exact absurd refused (yield_unrefused ran (by unfold Refusal; decide) active answer)

theorem Machine.nanosleep_free (req : UInt64) : (ThreadCall.nanosleep req).Free start m := by
  intro w m' a ran answer refused
  rw [ThreadCall.run, nanosleep, if_neg (not_not_intro v3)] at ran
  split at ran
  · cases ran
    exact .refl _
  · dsimp only [readTimespec] at ran
    split at ran
    · cases ran
      exact .refl _
    · have active := fun ns => (Threads.Keeps.advance m.threads ns).2
      exact absurd refused (yield_unrefused ran (by unfold Refusal; decide) (active _) answer)

theorem Machine.futexWaitTimeout_unrefused {addr deadline : UInt64} {compare : UInt32}
    (ran : m.futexWaitTimeout addr compare true deadline = .ok (w, m'))
    (answer : m'.answered m.threads.activeTid w = some a) : ¬ Refusal a := by
  unfold futexWaitTimeout at ran
  simp only [v3, ne_eq, not_true_eq_false, Bool.true_eq_false, or_self, if_false] at ran
  split at ran
  · cases ran
    cases (answered_self { m with memory := _ } _).symm.trans answer
    unfold Refusal
    decide
  · split at ran
    · have active := (Threads.Keeps.advance m.threads Threads.tickNs).2
      split at ran
      · exact yield_unrefused ran (by unfold Refusal; decide) active answer
      · cases ran
        rw [answered, if_pos active] at answer
        cases answer
        unfold Refusal
        decide
    · exact yield_unrefused ran (by unfold Refusal; decide) rfl answer

theorem Machine.futex_free {addr word val timeout addr2 : UInt64}
    (timed : (ThreadCall.futex addr word val timeout addr2).Timed) :
    (ThreadCall.futex addr word val timeout addr2).Free start m := by
  intro w m' a ran answer refused
  rw [ThreadCall.run, futex] at ran
  dsimp only [readTimespec] at ran
  obtain ⟨waits, some_⟩ : (FutexOp.ofWord word).waits = true ∧ timeout ≠ 0 := timed
  rw [if_pos (And.intro v3 ⟨waits, some_⟩)] at ran
  split at ran
  · cases ran
    exact .refl _
  · split at ran
    · cases ran
      exact .refl _
    · split at ran
      · cases ran
        exact .refl _
      · split at ran
        · cases ran
          exact .refl _
        · exact absurd refused (futexWaitTimeout_unrefused (by exact v3) ran answer)

end

theorem Machine.sleepUntil_active (t : Threads) (start flags target : UInt64) :
    (sleepUntil t start flags target).activeTid = t.activeTid := by
  unfold sleepUntil
  dsimp only
  split
  · split
    · exact (Threads.Keeps.advance t _).2
    · rfl
  · exact (Threads.Keeps.advance t _).2

theorem Machine.clockNanosleep_free (v3 : m.threads.spec = 3) (flags req rem : UInt64) :
    (ThreadCall.clockNanosleep flags req rem).Free start m ↔
      (ThreadCall.clockNanosleep flags req rem).Spares start m := by
  unfold ThreadCall.Free ThreadCall.Spares
  rw [ThreadCall.run, clockNanosleep, if_neg (not_not_intro v3)]
  dsimp only [readTimespec]
  generalize (GuestMemory.read64 m.memory req).1 = sec
  generalize (GuestMemory.read64 m.memory req).2 = memory
  generalize (GuestMemory.read64 memory (req + 8)).1 = nsec
  generalize (GuestMemory.read64 memory (req + 8)).2 = memory
  split
  next unreadable =>
    refine iff_of_true (fun w m' a ran _ _ => ?_) fun readable => ?_
    · cases ran
      exact .refl _
    · rw [readable] at unreadable
      cases unreadable
  next readable =>
    split
    next bad =>
      refine iff_of_true (fun w m' a ran _ _ => ?_) fun _ good => ?_
      · cases ran
        exact .refl _
      · rw [bad] at good
        cases good
    next good =>
      have active := sleepUntil_active m.threads start flags (m.threads.nsOf sec nsec)
      have unrefused {m₀ m' : Machine M} {w a : UInt64} (ran : m₀.yield = .ok (w, m'))
          (at_ : m₀.threads.activeTid = m.threads.activeTid)
          (answer : m'.answered m.threads.activeTid w = some a) : ¬ Refusal a :=
        yield_unrefused ran (by unfold Refusal; decide) at_ answer
      split
      next none_ =>
        refine iff_of_true (fun w m' a ran answer refused => ?_) fun _ _ some_ => absurd none_ some_
        exact absurd refused (unrefused ran active answer)
      next some_ =>
        split
        next unwritable =>
          have few := badTime_nsec (by simpa using good)
          have same := sameTimes_sleepUntil m.threads start flags (m.threads.nsOf sec nsec)
            fun recent => Threads.nsOf_le recent sec few
          refine ⟨fun free _ _ _ _ => same.mp ?_, fun spares w m' a ran _ _ => ?_⟩
          · refine free _ _ (serr .efault) rfl ?_ (.inl rfl)
            rw [answered, if_pos active]
          · cases ran
            exact same.mpr (spares (by simpa using readable) (by simpa using good) some_
              (by simpa using unwritable))
        next writable =>
          refine iff_of_true (fun w m' a ran answer refused => ?_) fun _ _ _ denied => ?_
          · exact absurd refused (unrefused ran active answer)
          · rw [denied] at writable
            exact absurd rfl writable

/-- A refused time call has cost nothing, but for a `clock_nanosleep` that is refused over its
remainder and had time to pass. -/
theorem ThreadCall.refused_iff (v3 : m.threads.spec = 3) {call : ThreadCall} (timed : call.Timed) :
    call.Free start m ↔ call.Spares start m := by
  cases call with
  | clockGettime ts => exact iff_of_true (Machine.clockGettime_free v3 ts) trivial
  | nanosleep req => exact iff_of_true (Machine.nanosleep_free v3 req) trivial
  | clockNanosleep flags req rem => exact Machine.clockNanosleep_free v3 flags req rem
  | futex addr word val timeout addr2 => exact iff_of_true (Machine.futex_free v3 timed) trivial
  | schedYield => exact timed.elim
  | wbxClone _ _ _ _ _ => exact timed.elim
  | exit => exact timed.elim
  | tkill _ _ => exact timed.elim
  | setTidAddress _ => exact timed.elim
  | gettid => exact timed.elim

end Refused

/-- A sleep of no time, refused over its remainder. -/
theorem ThreadCall.refused_iff_zero :
    (clockNanosleep 0 16 32).Free 1000000000 (Machine.told 0 0) := by
  have v3 : (Machine.told 0 0).threads.spec = 3 := by decide
  have timed : (clockNanosleep 0 16 32).Timed := trivial
  exact (refused_iff v3 timed).mpr fun _ _ _ _ => by decide

/-- A sleep of five seconds in a memory that cannot be written: the answer is `EFAULT`, and the
five seconds have passed. -/
theorem ThreadCall.refused_slept : ∃ w m',
    (clockNanosleep 0 16 32).run 1000000000 (Machine.told 5 0) = .ok (w, m') ∧
      m'.answered (Machine.told 5 0).threads.activeTid w = some (serr .efault) ∧
      (Machine.told 5 0).threads.vclockNs = 0 ∧ m'.threads.vclockNs = 5000000000 :=
  ⟨_, _, rfl, by decide, by decide, by decide⟩

end MiniBox
