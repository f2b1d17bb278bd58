import MiniBox.Host.ThreadTurns
import MiniBox.Threads.Wake

/-!
# The clock along every run

Every thread and time system call leaves a set in time, and the clock no earlier than it
found it.
-/

namespace MiniBox

open Lib

/-! ## Times a guest hands over -/

theorem toInt_toInt64 (x : UInt64) :
    x.toInt64.toInt = if x.toNat < 2 ^ 63 then (x.toNat : Int) else x.toNat - 2 ^ 64 := by
  have same : x.toBitVec.toNat = x.toNat := rfl
  show x.toBitVec.toInt = _
  rw [BitVec.toInt_eq_toNat_cond, same]
  split <;> split <;> omega

theorem badTime_nsec {sec nsec : UInt64} (good : badTime sec nsec = false) :
    nsec.toNat < 1000000000 := by
  simp only [badTime, Bool.or_eq_false_iff, decide_eq_false_iff_not, Int64.lt_iff_toInt_lt,
    Int64.le_iff_toInt_le, toInt_toInt64] at good
  obtain ⟨⟨-, negative⟩, whole⟩ := good
  have width := nsec.toNat_lt
  rw [show (0 : Int64).toInt = 0 from rfl] at negative
  rw [show (1000000000 : Int64).toInt = 1000000000 from rfl] at whole
  split at negative <;> split at whole <;> omega

theorem pastStart_le (start target : UInt64) : pastStart start target ≤ target := by
  unfold pastStart
  split
  · rename_i after
    have less := UInt64.lt_iff_toNat_lt.mp after
    rw [UInt64.le_iff_toNat_le, UInt64.toNat_sub_of_le _ _ (UInt64.le_of_lt after)]
    omega
  · rw [UInt64.le_iff_toNat_le]
    exact Nat.zero_le _

/-- An accepted start and the clock have a sum that fits. -/
theorem setClockStart_fits {isSealed : Bool} {seconds start clock : UInt64}
    (accepted : setClockStart isSealed seconds = .ok start) (inside : clock ≤ Threads.clockMax) :
    start.toNat + clock.toNat < 2 ^ 64 := by
  have top := Threads.clockMax_toNat
  have most : Threads.clockStartMaxSec.toNat = 7258118400 := rfl
  have billion : (1000000000 : UInt64).toNat = 1000000000 := rfl
  unfold setClockStart at accepted
  split at accepted
  · cases accepted
  · split at accepted
    · cases accepted
    · rename_i early
      cases accepted
      rw [UInt64.lt_iff_toNat_lt] at early
      rw [UInt64.le_iff_toNat_le] at inside
      rw [UInt64.toNat_mul, billion, Nat.mod_eq_of_lt (by omega)]
      omega

/-! ## Calls keep time -/

/-- An answer from a machine in time that comes after `t`, or a told death. -/
abbrev Goes {M : Type} (t : Threads) (r : Answer M UInt64) : Prop :=
  Ends (fun e => e.1.Told) (fun m => t.Later m.threads) r

section Calls

variable {M : Type} {t s : Threads} {rows : List Row}

theorem Threads.Timely.exists_active (timely : t.Timely rows) :
    ∃ g ∈ t.threads, g.tid = t.activeTid := by
  obtain ⟨r, member, same⟩ := timely.active
  refine ⟨r.thread, ?_, same⟩
  rw [timely.lists.threads]
  exact List.mem_map_of_mem member

theorem Threads.Timely.swapTo {tid : UInt32} (timely : t.Timely rows)
    (some_ : ∃ g ∈ t.threads, g.tid = tid) (c : Context) (ret : UInt64) :
    Ends Death.Told (fun s => t.Later s.1) (t.swapTo c tid ret) := by
  obtain ⟨rows', stored⟩ := timely.store c ret
  have here := Threads.exists_store (P := fun id_ _ => id_ = tid) c ret some_
  obtain ⟨old, found⟩ := Threads.findThread_some timely.exists_active
  obtain ⟨new, there⟩ := Threads.findThread_some here
  rw [Threads.swapTo, found, there]
  exact .ran _ ⟨⟨rows', stored.activate here⟩, UInt64.le_refl _⟩

theorem Threads.Timely.takeHeldUnmap (timely : t.Timely rows) : t.Later t.takeHeldUnmap.2 := by
  unfold Threads.takeHeldUnmap
  split
  · exact timely.later
  · split
    · exact timely.later
    · obtain ⟨rows', taken⟩ := timely.onThread t.activeTid
        (f := fun g => { g with pending := ⟨0, 0⟩ }) (fun _ => rfl) fun _ => .inl rfl
      exact ⟨⟨rows', taken⟩, UInt64.le_refl _⟩

theorem Threads.Due.bounded {start deadline : UInt64} (due : t.Due start deadline)
    (timely : t.Timely rows) : deadline ≤ clockMax := by
  obtain ⟨sec, nsec, good, rfl | rfl⟩ := due
  · exact (nsAdd_bounds timely.revision timely.clock).2
  · exact UInt64.le_trans (pastStart_le _ _) (nsOf_le timely.revision sec (badTime_nsec good))

theorem Threads.Dies.told_of (timely : t.Timely rows) {d : Death} (dies : t.Dies d) : d.Told := by
  cases dies with
  | told text => trivial
  | noThread missing =>
    obtain ⟨g, found⟩ := findThread_some timely.exists_active
    rw [missing] at found
    cases found
  | swapToNext died => exact (timely.swapToNext _ _).of_error died
  | swapTo some_ died => exact (timely.swapTo some_ _ _).of_error died

variable [GuestAccess M] {start : UInt64} {gone : UInt32 → Prop} {m m' : Machine M}

theorem Machine.Turn.later (timely : m.threads.Timely rows) (turn : Turn start gone m m') :
    m.threads.Later m'.threads := by
  cases turn with
  | advance ns => exact timely.advance ns
  | park addr => exact timely.park addr _
  | parkUntil addr due ahead =>
    obtain ⟨rows', parked⟩ := timely.parkUntil addr m.threads.activeTid (m.threads.parkSeq + 1)
      (due.bounded timely) ahead
    exact ⟨⟨rows', parked.of_same rfl rfl rfl rfl rfl rfl rfl⟩, UInt64.le_refl _⟩
  | unparkOne addr => exact timely.unparkOne addr
  | requeue source target left wake =>
      exact Threads.Timely.requeueLoop source target left wake timely
  | insert g =>
    obtain ⟨rows', inserted⟩ := timely.insertThread g
    exact ⟨⟨rows', inserted.of_same rfl rfl rfl rfl rfl rfl rfl⟩, UInt64.le_refl _⟩
  | touch tid _ _ state => exact ⟨timely.onThread _ tid state, UInt64.le_refl _⟩
  | take => exact timely.takeHeldUnmap
  | remove _ other => exact ⟨timely.removeThread other, UInt64.le_refl _⟩
  | swapToNext ran => exact (timely.swapToNext _ _).of_ok ran
  | swapTo some_ ran => exact (timely.swapTo some_ _ _).of_ok ran
  | _ => exact timely.later

theorem Machine.Turns.later (timely : m.threads.Timely rows) (turns : Turns start gone m m') :
    m.threads.Later m'.threads := by
  induction turns with
  | refl => exact timely.later
  | tail _ turn ih =>
    obtain ⟨⟨rows', after⟩, -⟩ := id ih
    exact ih.trans (turn.later after)

theorem Machine.Runs.goes (timely : m.threads.Timely rows) {r : Answer M UInt64}
    (runs : Runs start gone m r) : Goes m.threads r := by
  cases runs with
  | died ended =>
    obtain ⟨s, turns, dies⟩ := ended
    obtain ⟨⟨rows', after⟩, -⟩ := turns.later timely
    exact .died (dies.told_of after)
  | ran w turns => exact .ran w (turns.later timely)

theorem Threads.Timely.yieldValue (timely : t.Timely rows) (c : Context) (memory : M)
    (ret : UInt64) :
    Goes t (Machine.yieldValue ⟨t, c, memory⟩ ret) :=
  have runs : Machine.Runs 0 (fun _ => False) ⟨t, c, memory⟩ _ := Machine.yieldValue_runs _ ret
  runs.goes timely

theorem Threads.Timely.sleepUntil (timely : t.Timely rows) (start flags target : UInt64) :
    t.Later (Machine.sleepUntil t start flags target) := by
  unfold Machine.sleepUntil
  dsimp only
  split
  · split
    · exact timely.advance _
    · exact timely.later
  · exact timely.advance _

/-- A `clock_nanosleep` of a time that is accepted: the clock moves first, whatever comes of
the remainder. -/
theorem Threads.Timely.slept (timely : t.Timely rows) {memory : M} (c : Context)
    (start flags rem : UInt64) {req : UInt64}
    (readable : GuestAccess.can memory req 16 false = true)
    (good : badTime (Machine.readTimespec ⟨t, c, memory⟩ req).1.1
      (Machine.readTimespec ⟨t, c, memory⟩ req).1.2 = false) :
    Goes (Machine.sleepUntil t start flags
        (t.nsOf (Machine.readTimespec ⟨t, c, memory⟩ req).1.1
          (Machine.readTimespec ⟨t, c, memory⟩ req).1.2))
      (Machine.clockNanosleep ⟨t, c, memory⟩ start flags req rem) := by
  obtain ⟨⟨rows', after⟩, -⟩ := timely.sleepUntil start flags
    (t.nsOf (Machine.readTimespec ⟨t, c, memory⟩ req).1.1
      (Machine.readTimespec ⟨t, c, memory⟩ req).1.2)
  unfold Machine.clockNanosleep
  rw [if_neg (not_not_intro timely.spec), if_neg (by simp [readable])]
  dsimp only [Machine.readTimespec] at good after ⊢
  rw [if_neg (by simp [good])]
  split
  · exact after.yieldValue c _ (sok 0)
  · split
    · exact .ran _ after.later
    · exact after.yieldValue c _ (sok 0)

/-- Every thread or time call comes back with a machine in time, its clock no earlier than
it was, or ends the guest and says why. -/
theorem ThreadCall.goes (timely : t.Timely rows) (c : Context) (memory : M) (start : UInt64)
    (call : ThreadCall) : Goes t (call.run start ⟨t, c, memory⟩) :=
  have runs : Machine.Runs start (fun _ => True) ⟨t, c, memory⟩ _ := call.runs _ fun _ => trivial
  runs.goes timely

end Calls

/-! ## Whole runs -/

/-- The sets of a machine of spec 3 that has made thread and time system calls, with any
registers and memory at each of them, and has loaded sets such machines saved. -/
inductive ClockRun (M : Type) [GuestAccess M] (start : UInt64) (revision : UInt32) :
    Threads → Prop where
  | new : ClockRun M start revision ((Threads.new.setSpec 3).setKitRevision revision)
  | call {t : Threads} {c : Context} {memory : M} {w : UInt64} {m : Machine M} (call : ThreadCall) :
      ClockRun M start revision t → call.run start ⟨t, c, memory⟩ = .ok (w, m) →
      ClockRun M start revision m.threads
  | loaded {t s s' u : Threads} {c d d' : Context} {bytes rest left : Bytes} :
      ClockRun M start revision t → ClockRun M start revision s → s.WellFormed →
      s.save c = (some bytes, s') → t.load d (bytes ++ rest) = (some left, u, d') →
      ClockRun M start revision u

/-- One call leads from a set to the next. -/
def Called (M : Type) [GuestAccess M] (start : UInt64) (t t' : Threads) : Prop :=
  ∃ (call : ThreadCall) (c : Context) (memory : M) (w : UInt64) (m : Machine M),
    call.run start ⟨t, c, memory⟩ = .ok (w, m) ∧ t' = m.threads

section Runs

variable {M : Type} [GuestAccess M] {start seconds : UInt64} {revision : UInt32} {t t' u : Threads}
  {rows : List Row}

theorem Threads.Timely.new (recent : 2 ≤ revision) :
    ((new.setSpec 3).setKitRevision revision).Timely [⟨{ tid := 1 }, 0, 0⟩] where
  lists := ⟨rfl, rfl, rfl⟩
  each := by
    intro r member
    rw [List.mem_singleton] at member
    rw [member]
    exact .unset _ 0
  spec := rfl
  revision := recent
  clock := UInt64.zero_le
  active := ⟨_, List.mem_singleton.mpr rfl, rfl⟩

/-- A load brings back the clock and the deadlines of the set that was saved. -/
theorem Threads.Timely.restored {more : List Row} (timely : t.Timely rows) (here : u.Timely more) :
    ∃ rows, (u.restored t).Timely rows := by
  let clear := fun r : Row => { r with seq := 0 }
  refine ⟨rows.map clear, ⟨?_, ?_, ?_⟩, ?_, here.spec, here.revision, ?_, ?_⟩
  · rw [List.map_map]
    exact timely.lists.threads
  · show (if t.spec = 3 then t.deadlines else _) = _
    rw [if_pos timely.spec, List.map_map]
    exact timely.lists.deadlines
  · show List.replicate t.threads.length 0 = _
    rw [List.map_map, timely.lists.threads, List.length_map]
    exact List.map_const'.symm
  · intro r member
    obtain ⟨q, inside, rfl⟩ := List.mem_map.mp member
    have row := timely.each q inside
    show Row.Timely (if t.spec = 3 then t.vclockNs else _) (clear q)
    rw [if_pos timely.spec]
    exact ⟨row.still, row.bounded, row.ahead⟩
  · show (if t.spec = 3 then t.vclockNs else _) ≤ _
    rw [if_pos timely.spec]
    exact timely.clock
  · obtain ⟨r, member, same⟩ := timely.active
    exact ⟨clear r, List.mem_map_of_mem member, same⟩

theorem ClockRun.timely (recent : 2 ≤ revision) (run : ClockRun M start revision t) :
    ∃ rows, t.Timely rows := by
  induction run with
  | new => exact ⟨_, .new recent⟩
  | call call run ran ih =>
    rename_i t c memory w m
    obtain ⟨rows, timely⟩ := ih
    exact ((call.goes timely c memory start).of_ok ran).1
  | loaded run saver well saved read ih ih' =>
    rename_i t s s' u c d d' bytes rest left
    obtain ⟨rows, timely⟩ := ih
    obtain ⟨rows', saver⟩ := ih'
    have main : s.activeTid = 1 := by
      by_contra other
      rw [Threads.save, if_pos other] at saved
      cases saved
    rw [Threads.save, if_neg (not_not_intro main)] at saved
    cases saved
    have active : t.activeTid = 1 := by
      by_contra other
      rw [Threads.load, if_pos other] at read
      cases read
    have spec : t.spec = 3 ↔ s.spec = 3 := by rw [timely.spec, saver.spec]
    rw [well.load main c spec active d rest] at read
    cases read
    obtain ⟨rows'', settled⟩ := saver.onThread 1
      (f := fun g => { g with threadArea := c.threadArea, rsp := c.guestRsp })
      (fun _ => rfl) fun _ => .inl rfl
    exact Threads.Timely.restored settled timely

theorem Called.later (called : Called M start t t') (timely : t.Timely rows) : t.Later t' := by
  obtain ⟨call, c, memory, w, m, ran, rfl⟩ := called
  exact (call.goes timely c memory start).of_ok ran

theorem Threads.Timely.calls (timely : t.Timely rows)
    (calls : Relation.ReflTransGen (Called M start) t t') : t.Later t' := by
  induction calls with
  | refl => exact timely.later
  | tail _ called ih =>
    obtain ⟨⟨rows', after⟩, -⟩ := id ih
    exact ih.trans (called.later after)

/-- Virtual time along every run: the clock fits beside its start, nothing that is still
waited for is due, the clock never goes back, and no call hangs.  And whenever nobody can
run and somebody waits for a time, the scheduler moves the clock to the earliest of those
times and runs a thread that can run. -/
theorem ClockRun.soundClock (accepted : setClockStart false seconds = .ok start)
    (recent : 2 ≤ revision)
    (run : ClockRun M start revision t) :
    start.toNat + t.vclockNs.toNat < 2 ^ 64 ∧ (∀ d, t.Awaits d → t.vclockNs < d) ∧
      (∀ t', Relation.ReflTransGen (Called M start) t t' → t.vclockNs ≤ t'.vclockNs) ∧
      (∀ (call : ThreadCall) (c : Context) (memory : M) e,
        call.run start ⟨t, c, memory⟩ = .error e → e.1.Told) ∧
      ∀ s : Threads, s.spec = 3 → s.deadlines.length = s.threads.length →
        s.seqs.length = s.threads.length → (∃ g ∈ s.threads, g.tid = s.activeTid) →
        (∀ g ∈ s.threads, g.state ≠ .runnable) → (∃ d, s.Awaits d) →
        ∀ (c : Context) (ret : UInt64), ∃ w s' c', s.swapToNext c ret = .ok (w, s', c') ∧
          IsLeast {d | s.Awaits d} s'.vclockNs ∧
          ∃ g ∈ s'.threads, g.tid = s'.activeTid ∧ g.state = .runnable := by
  obtain ⟨rows, timely⟩ := run.timely recent
  refine ⟨setClockStart_fits accepted timely.clock, ?_, ?_, ?_, ?_⟩
  · intro d awaited
    obtain ⟨nonzero, member⟩ := timely.lists.awaits.mp awaited
    obtain ⟨r, inside, same⟩ := List.mem_map.mp member
    have deadline : r.deadline = d := congrArg Prod.snd same
    exact deadline ▸ (timely.each r inside).ahead (deadline ▸ nonzero)
  · exact fun t' calls => (timely.calls calls).2
  · intro call c memory e died
    exact (call.goes timely c memory start).of_error died
  · intro s v3 deadlines seqs active idle awaited c ret
    obtain ⟨w, s', c', ran, least, below, runs⟩ :=
      (Threads.lists_rows deadlines seqs).swapToNext_forward v3 active idle awaited c ret
    exact ⟨w, s', c', ran, ⟨least, below⟩, runs⟩

end Runs

instance (word : UInt64) : GuestAccess (Steady word) where
  can _ _ _ _ := true
  munmap m _ := m

/-- The set a call leaves, in a memory of fives. -/
def Threads.afterCall (t : Threads) (start : UInt64) (call : ThreadCall) : Threads :=
  match call.run start (⟨t, .zero, {}⟩ : Machine (Steady 5)) with
  | .ok (_, m) => m.threads
  | .error _ => t

theorem ClockRun.step {start : UInt64} {revision : UInt32} {t : Threads}
    (run : ClockRun (Steady 5) start revision t) (call : ThreadCall) :
    ClockRun (Steady 5) start revision (t.afterCall start call) := by
  rw [Threads.afterCall]
  cases ran : call.run start (⟨t, .zero, {}⟩ : Machine (Steady 5)) with
  | error e => exact run
  | ok answer => exact .call call run ran

/-- Two threads wait for 5 s and 5 ns, the second from a clock that has been read once.
Then nobody can run, and the clock jumps to the end of the first wait. -/
def Threads.jumped : Threads :=
  (((((new.setSpec 3).setKitRevision 2).afterCall 1000000000 (.wbxClone 1 0 0 0 0)).afterCall
    1000000000 (.futex 64 0 5 8 0)).afterCall 1000000000 (.clockGettime 16)).afterCall
    1000000000 (.futex 72 0 5 8 0)

theorem ClockRun.soundClock_jumped : Threads.jumped.vclockNs = 5000000005 ∧
    Threads.jumped.Awaits 5000001005 ∧ ∀ d, Threads.jumped.Awaits d → 5000000005 < d := by
  have run : ClockRun (Steady 5) 1000000000 2 Threads.jumped :=
    (((new.step (.wbxClone 1 0 0 0 0)).step (.futex 64 0 5 8 0)).step (.clockGettime 16)).step
      (.futex 72 0 5 8 0)
  have clock : Threads.jumped.vclockNs = 5000000005 := by decide
  have accepted : setClockStart false 1 = .ok 1000000000 := by decide
  have ahead := (soundClock accepted (by decide) run).2.1
  refine ⟨clock, ⟨by decide, ?_⟩, clock ▸ ahead⟩
  exact ⟨{ tid := 2, state := .waiting, stack := ⟨0, 5⟩ }, by decide, rfl⟩

end MiniBox
