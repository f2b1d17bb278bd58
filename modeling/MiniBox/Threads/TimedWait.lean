import MiniBox.Threads.Follow
import MiniBox.Threads.Wake

/-!
# What a timed wait answers

`TimedWait` is every run that begins with a thread of a spec 3 machine parking until a
deadline, with what a look at its queue and at the clock after each operation tells of the
wait: it is parked still, it is over and the thread has not run since, or the thread has
been resumed.  A wait that ends while the clock is before the deadline should answer 0, one
that ends with the clock at the deadline or past it `ETIMEDOUT`.

The answer lies in the thread's saved return, where parking, expiry and the switch itself
write.  In every run that starts threads only while there are ids left the thread is handed
what the look tells, and 0 only after a wake of its address.  Once ids repeat, a thread that
has the waiting one's id can make the scheduler resume it unasked.
-/

namespace MiniBox

open Lib GuestMemory

/-- What has become of a timed wait. -/
inductive Wait where
  | parked
  /-- no longer parked, and not run since: what it should answer -/
  | ended (verdict : UInt64)
  /-- run again: what it should answer and what it was handed -/
  | resumed (verdict : UInt64) (reply : Reply)

/-- What a wait that ends with the clock at `clock` should answer. -/
def verdict (deadline clock : UInt64) : UInt64 :=
  if clock < deadline then sok 0 else serr .etimedout

/-- A look at the queue, the clock and the thread that runs, after an operation. -/
def Wait.look (x : UInt32) (addr deadline : UInt64) (t : Threads) (reply : Reply) : Wait → Wait
  | .parked =>
    if x ∈ t.waiters addr then .parked
    else if t.activeTid = x then .resumed (verdict deadline t.vclockNs) reply
    else .ended (verdict deadline t.vclockNs)
  | .ended v => if t.activeTid = x then .resumed v reply else .ended v
  | .resumed v r => .resumed v r

/-- The sets reached after thread `x` has parked at `addr`, and what has become of the wait. -/
inductive TimedWait (M : Type) [GuestMemory M] (allowed : Threads → ThreadOp → Prop) (x : UInt32)
    (addr deadline : UInt64) : Threads → Wait → Prop where
  | park {m m' : Machine M} {w : UInt64} (compare : UInt32) :
      m.threads.Good → m.threads.spec = 3 → m.threads.activeTid = x →
      (read32 m.memory addr).1 = compare → m.threads.vclockNs < deadline →
      m.futexWaitTimeout addr compare true deadline = .ok (w, m') →
      TimedWait M allowed x addr deadline m'.threads
        (Wait.parked.look x addr deadline m'.threads (.word w))
  | op {t : Threads} {wait : Wait} {c : Context} {memory : M} {reply : Reply} {m : Machine M}
      (op : ThreadOp) :
      TimedWait M allowed x addr deadline t wait → op.Keeps → allowed t op →
      op.run ⟨t, c, memory⟩ = .ok (reply, m) →
      TimedWait M allowed x addr deadline m.threads (wait.look x addr deadline m.threads reply)

/-- What holds of a wait at each moment: it is in its queue before its deadline; or it is in
no queue and has no deadline, and what it should answer is what it will be handed; or that is
what it was handed. -/
def Wait.Holds (x : UInt32) (addr deadline : UInt64) (t : Threads) : Wait → Prop
  | .parked => t.activeTid ≠ x ∧ x ∈ t.waiters addr ∧ t.vclockNs < deadline
  | .ended v => t.activeTid ≠ x ∧ (∀ a, x ∉ t.waiters a) ∧
      ∃ r ∈ t.rows, r.tid = x ∧ r.deadline = 0 ∧ r.thread.state = .runnable ∧ r.thread.rax = v
  | .resumed v reply => reply = .word v

section Waits

variable {t t' : Threads} {x : UInt32} {addr deadline w : UInt64} {wait : Wait} {reply : Reply}

/-- The row of a thread parked until a time that is ahead. -/
structure Row.ParkedUntil (deadline : UInt64) (r : Row) : Prop where
  waits : r.thread.state = .waiting
  timed : r.deadline = deadline
  rax : r.thread.rax = sok 0

/-- `Wait.Holds`, with the row of a thread that is parked. -/
def Wait.Known (x : UInt32) (addr deadline : UInt64) (t : Threads) (wait : Wait) : Prop :=
  wait.Holds x addr deadline t ∧
    match wait with
    | .parked => ∃ r ∈ t.rows, r.tid = x ∧ r.ParkedUntil deadline
    | _ => True

theorem Threads.Good.row_unique (good : t.Good) {r q : Row} (inside : r ∈ t.rows)
    (among : q ∈ t.rows)
    (same : r.tid = q.tid) : r = q := by
  obtain ⟨rows, sound, -⟩ := good
  exact sound.sorted.unique (sound.mem_rows.mp inside) (sound.mem_rows.mp among) same

/-- A thread that can run is in no queue and has no deadline. -/
theorem Threads.Good.runnable_free (good : t.Good) {r : Row} (inside : r ∈ t.rows)
    (can : r.thread.state = .runnable) : (∀ a, r.tid ∉ t.waiters a) ∧ r.deadline = 0 := by
  obtain ⟨rows, sound, -⟩ := good
  have member := sound.mem_rows.mp inside
  refine ⟨fun a queued => ?_, (sound.unmarked r member can).1⟩
  rw [(sound.waits member queued).2] at can
  cases can

theorem Threads.Good.not_active (good : t.Good) (queued : x ∈ t.waiters addr) :
    t.activeTid ≠ x := by
  obtain ⟨rows, sound, runs⟩ := good
  exact (sound.not_active runs queued).symm

/-- A wait that has ended with the thread's row at `r`, which holds the answer. -/
theorem Wait.known_ended (good : t.Good) {r : Row} (inside : r ∈ t.rows)
    (can : r.thread.state = .runnable) {v : UInt64} (rax : r.thread.rax = v)
    (answer : t.activeTid = r.tid → ∃ q ∈ t.rows, q.tid = r.tid ∧ q.thread.rax = w)
    (said : t.activeTid = r.tid → reply = .word w) :
    (if t.activeTid = r.tid then resumed v reply else .ended v).Known r.tid addr deadline t := by
  split
  · rename_i now
    obtain ⟨q, among, same, handed⟩ := answer now
    rw [good.row_unique among inside same, rax] at handed
    exact ⟨by rw [Holds, said now, handed], trivial⟩
  · rename_i apart
    obtain ⟨free, quiet⟩ := good.runnable_free inside can
    exact ⟨⟨apart, free, r, inside, rfl, quiet, can, rax⟩, trivial⟩

/-- The fate of a parked thread is what the look tells. -/
theorem Wait.known_parked {wakes : Prop} (good : t'.Good) {r : Row}
    (parked : r.ParkedUntil deadline)
    (fate : Threads.Fate wakes addr t t' r) (ahead : t.vclockNs < deadline)
    (answer : t'.activeTid = r.tid → ∃ q ∈ t'.rows, q.tid = r.tid ∧ q.thread.rax = w)
    (said : t'.activeTid = r.tid → reply = .word w) :
    (Wait.parked.look r.tid addr deadline t' reply).Known r.tid addr deadline t' := by
  have nonzero : deadline ≠ 0 := by grind
  cases fate with
  | stays still there early =>
    have before : t'.vclockNs < deadline := by
      rcases early with same | early
      · rw [same]
        exact ahead
      · have apart : ¬ deadline ≤ t'.vclockNs := by
          simpa [Row.due, Threads.due, parked.waits, parked.timed, nonzero] using early
        exact UInt64.not_le.mp apart
    rw [Wait.look, if_pos there]
    exact ⟨⟨good.not_active there, there, before⟩, r, still, rfl, parked⟩
  | woken _ out clock =>
    have free : ∀ a, r.tid ∉ t'.waiters a := (good.runnable_free out rfl).1
    have told : verdict deadline t'.vclockNs = sok 0 := by
      rw [verdict, clock, if_pos ahead]
    rw [Wait.look, if_neg (free addr), told]
    exact Wait.known_ended good out rfl parked.rax answer said
  | expired out ended =>
    have free : ∀ a, r.tid ∉ t'.waiters a := (good.runnable_free out rfl).1
    have past : deadline ≤ t'.vclockNs := by
      have due := ended
      simp only [Row.due, Threads.due, parked.timed, Bool.and_eq_true, decide_eq_true_eq] at due
      exact due.2
    have told : verdict deadline t'.vclockNs = serr .etimedout := by
      rw [verdict, if_neg (UInt64.not_lt.mpr past)]
    rw [Wait.look, if_neg (free addr), told]
    exact Wait.known_ended good out rfl rfl answer said

/-- One operation of another thread. -/
theorem Wait.Known.follows {wakes : UInt64 → Prop} (known : wait.Known x addr deadline t)
    (other : t.activeTid ≠ x) (good : t'.Good) (follows : Threads.Follows wakes x t t' w)
    (said : t'.activeTid = x → reply = .word w) :
    (wait.look x addr deadline t' reply).Known x addr deadline t' := by
  cases wait with
  | parked =>
    obtain ⟨⟨-, queued, ahead⟩, r, inside, rfl, parked⟩ := known
    exact known_parked good parked (follows.waiting r inside rfl addr queued) ahead
      follows.answer said
  | ended v =>
    obtain ⟨⟨-, -, r, inside, rfl, -, can, rax⟩, -⟩ := known
    exact known_ended good (follows.runnable r inside rfl can) can rax follows.answer said
  | resumed v r => exact ⟨known.1, trivial⟩

variable {M : Type} [GuestMemory M] {m m' : Machine M}

/-- The operation that parks. -/
theorem Wait.known_park (good : m.threads.Good) (v3 : m.threads.spec = 3) {compare : UInt32}
    (word : (read32 m.memory addr).1 = compare) (ahead : m.threads.vclockNs < deadline)
    (ran : m.futexWaitTimeout addr compare true deadline = .ok (w, m')) :
    m'.threads.Good ∧ (parked.look m.threads.activeTid addr deadline m'.threads (.word w)).Known
        m.threads.activeTid addr deadline m'.threads := by
  have goes : (ThreadOp.futexWaitTimeout addr compare true deadline).run m = .ok (.word w, m') := by
    show answer _ = _
    rw [ran]
    rfl
  have good' : m'.threads.Good := by
    refine (ThreadOp.leads good ?_ ?_ goes).1
    · trivial
    · trivial
  refine ⟨good', ?_⟩
  obtain ⟨rows, sound, r, member, here, can⟩ := good
  let n : Machine M := { m with memory := (read32 m.memory addr).2 }
  have parks : (n.parkUntil addr deadline).yieldValue (sok 0) = .ok (w, m') := by
    simpa [Machine.futexWaitTimeout, word, v3, UInt64.not_le.mpr ahead] using ran
  have parked := n.parkUntil_sound sound ⟨r, member, here, can⟩ rfl v3 addr deadline
  obtain ⟨c, next⟩ := Machine.switched_eq parks
  have switched := parked.store_switched next m.threads.activeTid
  have stored := parked.store m.context (sok 0)
  let row := (r.marked .waiting deadline (m.threads.parkSeq + 1)).stored m.context (sok 0)
  have inside : row ∈ ((n.parkUntil addr deadline).threads.store m.context (sok 0)).rows := by
    rw [stored.mem_rows]
    exact mem_map_on.mpr (.inl ⟨_, mem_map_on.mpr (.inl ⟨r, member, here, rfl⟩), here, rfl⟩)
  have queued : row.tid ∈
      ((n.parkUntil addr deadline).threads.store m.context (sok 0)).waiters addr := by
    show r.tid ∈ Queues.queued (m.threads.futicies.extend addr [m.threads.activeTid]) addr
    rw [Queues.queued_extend, if_pos rfl, here]
    simp
  have own : row.tid = m.threads.activeTid := here
  rw [← own] at switched ⊢
  exact known_parked good' ⟨rfl, rfl, rfl⟩ (switched.waiting row inside rfl addr queued) ahead
    switched.answer fun _ => rfl

theorem ThreadOp.Keeps.plain {op : ThreadOp} (keeps : op.Keeps) : op.Plain := by
  cases op with
  | futexRequeue => cases keeps
  | load => cases keeps
  | _ => trivial

theorem TimedWait.known (run : TimedWait M (fun t op => op.Fits t) x addr deadline t wait) :
    t.Good ∧ wait.Known x addr deadline t := by
  induction run with
  | park compare good v3 here word ahead ran =>
    subst here
    exact Wait.known_park good v3 word ahead ran
  | @op t wait c memory reply m op _ keeps fits ran ih =>
    obtain ⟨good, known⟩ := ih
    have good' := (ThreadOp.leads good keeps.plain fits ran).1
    refine ⟨good', ?_⟩
    have other : t.activeTid ≠ x →
        (wait.look x addr deadline m.threads reply).Known x addr deadline m.threads := by
      intro apart
      obtain ⟨w, follows, said⟩ := ThreadOp.follows good keeps fits ran apart.symm
      exact known.follows apart good' follows said
    cases wait with
    | parked => exact other known.1.1
    | ended v => exact other known.1.1
    | resumed v r => exact ⟨known.1, trivial⟩

/-- A parked wait that an operation ends before its deadline was woken by it. -/
theorem Wait.Known.woken {op : ThreadOp} {c : Context} {memory : M} {m : Machine M}
    (good : t.Good) (known : parked.Known x addr deadline t) (keeps : op.Keeps)
    (fits : op.Fits t) (ran : op.run ⟨t, c, memory⟩ = .ok (reply, m))
    (ended : x ∉ m.threads.waiters addr) (early : m.threads.vclockNs < deadline) :
    op.WakesAt t addr := by
  obtain ⟨⟨apart, queued, -⟩, r, inside, rfl, parked⟩ := known
  obtain ⟨w, follows, -⟩ := ThreadOp.follows good keeps fits ran apart.symm
  cases follows.waiting r inside rfl addr queued with
  | stays _ there _ => exact absurd there ended
  | woken wakes _ _ => exact wakes
  | expired _ ended =>
    simp only [Row.due, Threads.due, parked.timed, Bool.and_eq_true, decide_eq_true_eq] at ended
    exact absurd ended.2 (UInt64.not_le.mpr early)

/-- In every run after a timed wait has parked that starts threads only while there are ids
left: the wait is in its queue before its deadline, or is over with its answer stored, or was
resumed with that answer.  What ends it before its deadline is a wake of its address, and
when the thread runs again nothing of the wait is left. -/
theorem TimedWait.answers (run : TimedWait M (fun t op => op.Fits t) x addr deadline t wait) :
    wait.Holds x addr deadline t ∧
      ∀ (op : ThreadOp) (c : Context) (memory : M) (reply : Reply) (m : Machine M),
        op.Keeps → op.Fits t → op.run ⟨t, c, memory⟩ = .ok (reply, m) →
        (wait = .parked → x ∉ m.threads.waiters addr → m.threads.vclockNs < deadline →
          op.WakesAt t addr) ∧
        (m.threads.activeTid = x → (∀ a, x ∉ m.threads.waiters a) ∧
          ∀ r ∈ m.threads.rows, r.tid = x → r.deadline = 0) := by
  obtain ⟨good, known⟩ := run.known
  refine ⟨known.1, fun op c memory reply m keeps fits ran => ⟨?_, fun now => ?_⟩⟩
  · rintro rfl ended early
    exact Wait.Known.woken good known keeps fits ran ended early
  · have good' := (ThreadOp.leads good keeps.plain fits ran).1
    obtain ⟨rows, sound, r, member, here, can⟩ := id good'
    have inside := sound.mem_rows.mpr member
    obtain ⟨free, quiet⟩ := good'.runnable_free inside can
    rw [here, now] at free
    refine ⟨free, fun q among same => ?_⟩
    rw [good'.row_unique among inside (same.trans (now.symm.trans here.symm))]
    exact quiet

end Waits

/-! ## Waits in a memory of zeros -/

section Zeros

variable {allowed : Threads → ThreadOp → Prop} {x : UInt32} {addr deadline : UInt64} {t : Threads}
variable {wait : Wait}

/-- What an operation answers, in a memory of zeros. -/
def Threads.reply (t : Threads) (op : ThreadOp) : Reply :=
  match op.run (⟨t, .zero, {}⟩ : Machine Zeros) with
  | .ok (reply, _) => reply
  | .error _ => .nothing

theorem Threads.after_eq {op : ThreadOp}
    (alive : (op.run (⟨t, .zero, {}⟩ : Machine Zeros)).isOk = true) :
    ∃ m : Machine Zeros, op.run ⟨t, .zero, {}⟩ = .ok (t.reply op, m) ∧ m.threads = t.after op := by
  unfold reply after
  cases ran : op.run (⟨t, .zero, {}⟩ : Machine Zeros) with
  | error e => rw [ran] at alive; cases alive
  | ok answer => exact ⟨answer.2, rfl, rfl⟩

theorem TimedWait.step (run : TimedWait Zeros allowed x addr deadline t wait) (op : ThreadOp)
    (keeps : op.Keeps) (ok : allowed t op)
    (alive : (op.run (⟨t, .zero, {}⟩ : Machine Zeros)).isOk = true) :
    TimedWait Zeros allowed x addr deadline (t.after op)
      (wait.look x addr deadline (t.after op) (t.reply op)) := by
  obtain ⟨m, ran, same⟩ := Threads.after_eq alive
  rw [← same]
  exact .op op run keeps ok ran

/-- The operation that parks. -/
theorem TimedWait.begin (good : t.Good) (v3 : t.spec = 3) (ahead : t.vclockNs < deadline)
    {w : UInt64}
    (said : t.reply (.futexWaitTimeout addr 0 true deadline) = .word w) :
    TimedWait Zeros allowed t.activeTid addr deadline
    (t.after (.futexWaitTimeout addr 0 true deadline))
      (Wait.parked.look t.activeTid addr deadline (t.after (.futexWaitTimeout addr 0 true deadline))
        (.word w)) := by
  unfold Threads.reply Threads.after at *
  cases ran : (ThreadOp.futexWaitTimeout addr 0 true deadline).run
    (⟨t, .zero, {}⟩ : Machine Zeros) with
  | error e => rw [ran] at said; cases said
  | ok answer =>
    obtain ⟨reply, m⟩ := answer
    rw [ran] at said
    obtain ⟨w', told, ran⟩ := answer_word ran
    cases said
    cases told
    exact .park 0 good v3 rfl rfl ahead ran

end Zeros

/-- A second thread of a spec 3 machine, running. -/
def Threads.secondRuns : Threads :=
  (((new.setSpec 3).setKitRevision 2).after .start).after (.yieldValue 0)

/-- Thread 2 parks until 5000 at address 64, the main thread wakes it there, and lets it run. -/
theorem TimedWait.answers_woken : ∃ t,
    TimedWait Zeros (fun t op => op.Fits t) 2 64 5000 t (.resumed (sok 0) (.word 0)) ∧
      (Wait.resumed (sok 0) (.word 0)).Holds 2 64 5000 t := by
  have run : ThreadRun Zeros (fun t op => op.Fits t) _ _ _ := .new 3 2
  obtain ⟨since, run⟩ := run.step .start trivial (show (2 : UInt32) ≠ 0 by decide) rfl
  obtain ⟨since, run⟩ := run.step (.yieldValue 0) trivial trivial rfl
  have good : Threads.secondRuns.Good := run.inOrder.good
  have wait : TimedWait Zeros (fun t op => op.Fits t) 2 64 5000 _ _ :=
    .begin (t := Threads.secondRuns) good rfl (by decide) rfl
  have wait := wait.step (.futexWake 64 1) trivial trivial rfl
  have wait := wait.step (.yieldValue 1) trivial trivial rfl
  exact ⟨_, wait, (answers wait).1⟩

/-- The main thread parks until 5000 at address 64 when every id but 0 and its own has been
given out.  The thread that runs starts two more, which get those ids, and the scheduler, who
looks for the second thread 1, resumes the first: it is in its queue still, the clock stands
at 0, and nobody has woken it. -/
theorem TimedWait.resumed_unasked : ∃ t,
    TimedWait Zeros (fun _ _ => True) 1 64 5000 t .parked ∧ t.activeTid = 1 ∧ 1 ∈ t.waiters 64 ∧
      t.vclockNs = 0 ∧ ¬ Wait.parked.Holds 1 64 5000 t := by
  obtain ⟨since, now, run⟩ : ∃ since now, ThreadRun Zeros (fun t op => op.Fits t) _ since now :=
    ThreadRun.lone (fun _ _ fits => fits) 3 2 (2 ^ 32 - 3) (by decide)
  obtain ⟨since, run⟩ := run.step .start trivial (show (0xffffffff : UInt32) ≠ 0 by decide) rfl
  have wait : TimedWait Zeros (fun _ _ => True) 1 64 5000 _ _ :=
    .begin run.inOrder.good rfl (by decide) rfl
  have wait := wait.step .start trivial trivial rfl
  have wait := wait.step .start trivial trivial rfl
  have wait := wait.step (.yieldValue 0) trivial trivial rfl
  have wait := wait.step (.yieldValue 0) trivial trivial rfl
  exact ⟨_, wait, rfl, by decide, rfl, fun holds => holds.1 rfl⟩

end MiniBox
