import Mathlib.Data.List.Rotate
import MiniBox.Threads.TimedWait

/-!
# Requeues

`mb_threads_futex_requeue` wakes the first of those who wait at one address and moves the
next ones to another.  Between two addresses it handles each waiter once.  From an address
to itself a moved waiter comes to the end of the queue it was taken from, and the loop,
which looks only for an empty queue, takes it again: with two left to move it turns the
queue as many times as the guest asks, and answers that number.

`Threads.HandlesOnce` is what a requeue is for, and `requeue_handlesOnce_iff` says when the
loop does that.

A moved waiter is woken and parked again, and the wake drops its deadline: whatever the
clock comes to, it waits on.  `requeue_timesOut_iff` says so.
-/

namespace MiniBox

open Lib

/-- Each of those who wait at `source` handled at most once: the first `wake` woken, the next
`requeue` behind those at `target`, in their order, the others left in line. -/
structure Threads.HandlesOnce (t : Threads) (source target : UInt64) (wake requeue count : Nat)
    (t' : Threads) : Prop where
  answers : count =
    min wake (t.waiters source).length + min requeue ((t.waiters source).length - wake)
  atMost : count ≤ (t.waiters source).length
  woken : t'.threads = t.threads.map fun g =>
    if g.tid ∈ (t.waiters source).take wake then { g with state := .runnable } else g
  moved : ∀ a, t'.waiters a =
    (if a = source then ((t.waiters source).drop wake).drop requeue else t.waiters a) ++
      if a = target then ((t.waiters source).drop wake).take requeue else []

section Requeues

variable {t t' : Threads} {source target : UInt64} {wake requeue count : Nat} {s : Threads}

namespace Threads

/-- Between two addresses. -/
theorem Requeued.handlesOnce (apart : source ≠ target)
    (done : Requeued source target (wake + requeue) wake t count t') :
    t.HandlesOnce source target wake requeue count t' := by
  have count_eq := done.count_eq
  have taken : ((t.waiters source).take count).take wake = (t.waiters source).take wake := by
    rw [List.take_take, List.take_eq_take_iff]
    omega
  refine ⟨by omega, by omega, ?_, fun a => ?_⟩
  · rw [done.threads, taken]
  · rw [done.waiters]
    by_cases here : a = source
    · have not_ : a ≠ target := fun same => apart (here.symm.trans same)
      rw [if_pos here, if_pos here, if_neg not_, List.append_nil, List.drop_drop, here,
        List.drop_eq_drop_iff]
      omega
    · rw [if_neg here, if_neg here]
      split
      · rw [List.drop_take]
        congr 1
        rw [List.take_eq_take_iff, List.length_drop]
        omega
      · rw [List.append_nil]

/-! ## From an address to itself -/

/-- What `left` turns do that move waiters to the end of their own queue. -/
structure Turned (source : UInt64) (left : Nat) (t : Threads) (count : Nat) (t' : Threads) :
    Prop where
  good : t'.Good
  count_eq : count =
    if (t.waiters source).length ≤ 1 then min left (t.waiters source).length else left
  threads : t'.threads = t.threads
  waiters : ∀ a, t'.waiters a =
    if a = source then (t.waiters source).rotate left else t.waiters a

theorem Turned.none (good : t.Good) : Turned source 0 t 0 t := by
  refine ⟨good, by simp, rfl, fun a => ?_⟩
  split
  · rename_i here
    rw [here, List.rotate_zero]
  · rfl

/-- One turn, and the turns after it. -/
theorem Turned.trans {left : Nat} {tid : UInt32} {rest : List UInt32}
    (head : t.waiters source = tid :: rest) (some_ : rest ≠ []) (turn : Turned source 1 t 1 s)
    (others : Turned source left s count t') :
    Turned source (left + 1) t (count + 1) t' := by
  have queue : s.waiters source = (t.waiters source).rotate 1 := by rw [turn.waiters, if_pos rfl]
  have length : (s.waiters source).length = (t.waiters source).length := by
    rw [queue, List.length_rotate]
  have two : ¬ (t.waiters source).length ≤ 1 := by
    have long := List.length_pos_of_ne_nil some_
    rw [head, List.length_cons]
    omega
  have count_eq := others.count_eq
  rw [length, if_neg two] at count_eq
  refine ⟨others.good, ?_, others.threads.trans turn.threads, fun a => ?_⟩
  · rw [if_neg two, count_eq]
  · rw [others.waiters]
    split
    · rw [queue, List.rotate_rotate, Nat.add_comm]
    · rename_i other
      rw [turn.waiters, if_neg other]

theorem Good.turns : ∀ (left : Nat) {t : Threads}, t.Good →
    Turned source left t (requeueLoop source source left 0 t).1
      (requeueLoop source source left 0 t).2
  | 0, _, good => .none good
  | left + 1, t, ⟨rows, sound, runs⟩ => by
    rw [requeueLoop]
    rcases sound.unparkOne source with ⟨none_, answer⟩ | ⟨tid, rest, head, answer⟩
    · rw [answer]
      dsimp only
      refine ⟨⟨rows, sound, runs⟩, by simp [none_], rfl, fun a => ?_⟩
      split
      · rename_i here
        rw [here, none_, List.rotate_nil]
      · rfl
    · obtain ⟨good, threads, queues⟩ := sound.move runs head source
      rw [answer]
      simp only [if_true]
      generalize park _ source tid = s at good threads queues
      have turned : ∀ a, s.waiters a =
          if a = source then (t.waiters source).rotate 1 else t.waiters a := fun a => by
        rw [queues, head]
        split <;> simp
      cases rest with
      | nil =>
        simp only [List.isEmpty_nil, Bool.not_true, Bool.false_eq_true, if_false]
        refine ⟨good, by simp [head], threads, fun a => ?_⟩
        rw [turned, head]
        simp
      | cons next others =>
        have turn : Turned source 1 t 1 s := ⟨good, by simp [head], threads, turned⟩
        exact turn.trans head (by simp) (Good.turns left good)

/-- A requeue from an address to itself: the first are woken, and the others turn round. -/
structure RequeuedSame (source : UInt64) (wake requeue : Nat) (t : Threads) (count : Nat)
    (t' : Threads) : Prop where
  count_eq : count = min wake (t.waiters source).length +
    if (t.waiters source).length - wake ≤ 1 then min requeue ((t.waiters source).length - wake)
    else requeue
  threads : t'.threads = t.threads.map fun g =>
    if g.tid ∈ (t.waiters source).take wake then { g with state := .runnable } else g
  waiters : ∀ a, t'.waiters a =
    if a = source then ((t.waiters source).drop wake).rotate requeue else t.waiters a

theorem Turned.requeuedSame (turned : Turned source requeue t count t') :
    RequeuedSame source 0 requeue t count t' := by
  refine ⟨by simpa using turned.count_eq, ?_, fun a => by rw [turned.waiters, List.drop_zero]⟩
  rw [turned.threads]
  simp

/-- One more woken. -/
theorem Requeued.requeuedSame (turn : Requeued source source 1 (wake + 1) t 1 s)
    (others : RequeuedSame source wake requeue s count t') :
    RequeuedSame source (wake + 1) requeue t (count + 1) t' := by
  have some_ : 1 ≤ (t.waiters source).length := by
    have one := turn.count_eq
    omega
  obtain ⟨tid, rest, head⟩ : ∃ tid rest, t.waiters source = tid :: rest := by
    cases queue : t.waiters source with
    | nil => rw [queue] at some_; simp at some_
    | cons tid rest => exact ⟨tid, rest, rfl⟩
  have queue : s.waiters source = rest := by
    rw [turn.waiters, if_pos rfl, head]
    rfl
  refine ⟨?_, ?_, fun a => ?_⟩
  · rw [others.count_eq, queue, head, List.length_cons]
    simp only [Nat.add_sub_add_right]
    omega
  · rw [others.threads, turn.threads, queue, head, List.map_map]
    refine List.map_congr_left fun g _ => ?_
    by_cases first : g.tid = tid
    · simp [first]
    · simp [first]
  · rw [others.waiters]
    split
    · rw [queue, head, List.drop_succ_cons]
    · rename_i other
      rw [turn.waiters, if_neg other, if_neg other]

theorem Good.requeueSame (requeue : Nat) : ∀ (wake : Nat) {t : Threads}, t.Good →
    RequeuedSame source wake requeue t
      (requeueLoop source source (wake + requeue) wake t).1
      (requeueLoop source source (wake + requeue) wake t).2
  | 0, t, good => by
    rw [Nat.zero_add]
    exact (good.turns requeue).requeuedSame
  | wake + 1, t, ⟨rows, sound, runs⟩ => by
    rw [Nat.add_right_comm]
    cases queue : t.waiters source with
    | nil =>
      rw [sound.requeueLoop_nil queue]
      refine ⟨by simp [queue], by simp [queue], fun a => ?_⟩
      split
      · rename_i here
        rw [here, queue]
        simp
      · rfl
    | cons tid rest =>
      have turn : Requeued source source 1 (wake + 1) t 1 _ :=
        sound.turn runs (.inr (Nat.succ_ne_zero wake)) queue
      rw [sound.requeueLoop_cons runs (.inr (Nat.succ_ne_zero wake)) queue]
      exact turn.requeuedSame (Good.requeueSame requeue wake turn.good)

/-! ## When each waiter is handled once -/

theorem RequeuedSame.handlesOnce_iff (done : RequeuedSame source wake requeue t count t') :
    t.HandlesOnce source source wake requeue count t' ↔
      requeue ≤ (t.waiters source).length - wake ∨ (t.waiters source).length - wake ≤ 1 := by
  have count_eq := done.count_eq
  constructor
  · intro once
    have bound := once.atMost
    by_contra more
    rw [if_neg (by omega)] at count_eq
    omega
  · intro few
    have answer : count =
        min wake (t.waiters source).length + min requeue ((t.waiters source).length - wake) := by
      split at count_eq <;> omega
    refine ⟨answer, by omega, done.threads, fun a => ?_⟩
    rw [done.waiters]
    split
    · rw [← List.length_drop] at few
      generalize (t.waiters source).drop wake = left at few
      by_cases inside : requeue ≤ left.length
      · rw [List.rotate_eq_drop_append_take inside]
      · -- one at most is left, and it is where it was however often it is moved
        have past : left.length ≤ requeue := by omega
        rw [List.drop_eq_nil_of_le past, List.take_of_length_le past, List.nil_append]
        match left with
        | [] => rw [List.rotate_nil]
        | [x] => rw [List.rotate_singleton]
        | x :: y :: left =>
          simp only [List.length_cons] at few inside
          omega
    · rw [List.append_nil]

/-- A requeue handles each waiter once, unless it moves two or more from an address to that
address and is asked to move more than there are. -/
theorem Good.requeue_handlesOnce_iff (good : t.Good) (source target : UInt64)
    (wake requeue : UInt32) :
    t.HandlesOnce source target wake.toNat requeue.toNat
        (t.futexRequeue source target wake requeue).1
        (t.futexRequeue source target wake requeue).2 ↔
      source ≠ target ∨ requeue.toNat ≤ (t.waiters source).length - wake.toNat ∨
        (t.waiters source).length - wake.toNat ≤ 1 := by
  by_cases apart : source = target
  · subst apart
    have done : RequeuedSame source wake.toNat requeue.toNat t _ _ :=
      good.requeueSame requeue.toNat wake.toNat
    have same := done.handlesOnce_iff
    simpa [futexRequeue] using same
  · have done : Requeued source target (wake.toNat + requeue.toNat) wake.toNat t _ _ :=
      Sound.requeueLoop good (.inl apart)
    exact iff_of_true (done.handlesOnce apart) (.inl apart)

end Threads

end Requeues

/-! ## Deadlines -/

section Deadlines

variable {t t' : Threads} {source target : UInt64} {rows : List Row}

/-- The rows after one turn of the loop: that of the first waiter changes, and no other. -/
theorem Threads.Sound.turn_rows (sound : t.Sound rows none) {tid : UInt32}
    {rest : List UInt32} (head : t.waiters source = tid :: rest) (target : UInt64) (wake : Nat) :
    let s := t.turned source target wake tid rest
    (∀ r ∈ t.rows, r.tid ≠ tid → r ∈ s.rows) ∧
      (wake = 0 → ∀ r ∈ t.rows, r.tid = tid → r.marked .waiting 0 0 ∈ s.rows) := by
  have woken := sound.wake head
  obtain ⟨-, q, member, rfl, -⟩ := (sound.holds.mem tid).mp ⟨source, by
    show tid ∈ t.waiters source
    simp [head]⟩
  have inside : q.marked .runnable 0 0 ∈ rows.map (Row.on q.tid (Row.marked .runnable 0 0)) :=
    mem_map_on.mpr (.inl ⟨q, member, rfl, rfl⟩)
  have parked := woken.park inside rfl target
  dsimp only [turned]
  split
  · constructor
    · intro r among other
      refine parked.mem_rows.mpr (mem_map_on.mpr (.inr ⟨?_, other⟩))
      exact mem_map_on.mpr (.inr ⟨sound.mem_rows.mp among, other⟩)
    · intro _ r among here
      rw [sound.sorted.unique (sound.mem_rows.mp among) member here]
      exact parked.mem_rows.mpr (mem_map_on.mpr (.inl ⟨_, inside, rfl, rfl⟩))
  · rename_i some_
    refine ⟨fun r among other => ?_, fun none_ => absurd none_ some_⟩
    exact woken.mem_rows.mpr (mem_map_on.mpr (.inr ⟨sound.mem_rows.mp among, other⟩))

/-- The rows after a requeue between two addresses: a moved waiter has lost its deadline, and
those that are not reached keep theirs. -/
theorem Threads.Good.requeueLoop_rows (apart : source ≠ target) : ∀ (left wake : Nat) {t : Threads},
    t.Good → ∀ r ∈ t.rows, (r.tid ∉ (t.waiters source).take left →
        r ∈ (requeueLoop source target left wake t).2.rows) ∧
      (r.tid ∈ ((t.waiters source).take left).drop wake →
        r.marked .waiting 0 0 ∈ (requeueLoop source target left wake t).2.rows)
  | 0, wake, t, _, r, inside => by simpa [requeueLoop] using inside
  | left + 1, wake, t, ⟨rows, sound, runs⟩, r, inside => by
    cases head : t.waiters source with
    | nil =>
      rw [sound.requeueLoop_nil head]
      simpa using inside
    | cons tid rest =>
      have distinct := sound.holds.nodup source
      change (t.waiters source).Nodup at distinct
      rw [head, List.nodup_cons] at distinct
      obtain ⟨others, moves⟩ := sound.turn_rows head target wake
      have turn : Requeued source target 1 wake t 1 _ := sound.turn runs (.inl apart) head
      rw [sound.requeueLoop_cons runs (.inl apart) head]
      generalize t.turned source target wake tid rest = s at others moves turn
      have queue : s.waiters source = rest := by
        rw [turn.waiters, if_pos rfl, head]
        rfl
      have later := requeueLoop_rows apart left (wake - 1) turn.good
      rw [queue] at later
      rw [List.take_succ_cons]
      constructor
      · intro unreached
        rw [List.mem_cons, not_or] at unreached
        exact (later r (others r inside unreached.1)).1 unreached.2
      · cases wake with
        | zero =>
          intro reached
          rw [List.drop_zero, List.mem_cons] at reached
          by_cases first : r.tid = tid
          · refine (later _ (moves rfl r inside first)).1 fun again => ?_
            exact distinct.1 (first ▸ List.mem_of_mem_take again)
          · exact (later r (others r inside first)).2 (reached.resolve_left first)
        | succ wake =>
          intro reached
          rw [List.drop_succ_cons] at reached
          refine (later r (others r inside fun first => ?_)).2 reached
          exact distinct.1 (first ▸ List.mem_of_mem_take (List.mem_of_mem_drop reached))

/-- Whenever the clock comes to the deadline or past it, the thread is made runnable with
`ETIMEDOUT`. -/
def Threads.TimesOut (t : Threads) (x : UInt32) (deadline : UInt64) : Prop :=
  ∀ clock, deadline ≤ clock → ∃ r ∈ (t.at_ clock).rows,
    r.tid = x ∧ r.thread.state = .runnable ∧ r.thread.rax = serr .etimedout

/-- The sets reached while a thread waits: nobody wakes it, and the clock does not end its wait. -/
inductive Unwoken (M : Type) [GuestMemory M] (x : UInt32) (t : Threads) : Threads → Prop where
  | here : Unwoken M x t t
  | op {s : Threads} {c : Context} {memory : M} {reply : Reply} {m : Machine M} (op : ThreadOp)
      (a : UInt64) :
      Unwoken M x t s → op.Keeps → op.Fits s → op.run ⟨s, c, memory⟩ = .ok (reply, m) →
      x ∈ m.threads.waiters a → Unwoken M x t m.threads

/-- As long as it waits a thread keeps its row. -/
theorem Unwoken.row {M : Type} [GuestMemory M] {r : Row} (run : Unwoken M r.tid t t')
    (good : t.Good) (inside : r ∈ t.rows) {a : UInt64} (queued : r.tid ∈ t.waiters a) :
    t'.Good ∧ r ∈ t'.rows ∧ ∃ a, r.tid ∈ t'.waiters a := by
  induction run with
  | here => exact ⟨good, inside, a, queued⟩
  | op op b _ keeps fits ran waits ih =>
    obtain ⟨good, inside, a, queued⟩ := ih
    have good' := (ThreadOp.leads good keeps.plain fits ran).1
    refine ⟨good', ?_, b, waits⟩
    obtain ⟨w, follows, -⟩ := ThreadOp.follows good keeps fits ran (good.not_active queued).symm
    cases follows.waiting r inside rfl a queued with
    | stays still _ _ => exact still
    | woken _ out _ => exact absurd waits ((good'.runnable_free out rfl).1 b)
    | expired out _ => exact absurd waits ((good'.runnable_free out rfl).1 b)

theorem Threads.Good.timesOut (good : t.Good) {r : Row} (inside : r ∈ t.rows) {a : UInt64}
    (queued : r.tid ∈ t.waiters a) (timed : r.deadline ≠ 0) : t.TimesOut r.tid r.deadline := by
  intro clock past
  obtain ⟨rows, sound, -⟩ := good
  have member := sound.mem_rows.mp inside
  have waits := (sound.waits member queued).2
  have ended : r.due clock = true := by simp [Row.due, due, waits, timed, past]
  refine ⟨r.timedOut, ?_, rfl, rfl, rfl⟩
  rw [(sound.at_ clock).mem_rows]
  refine List.mem_map.mpr ⟨r, member, ?_⟩
  rw [Row.expire, if_pos ended]

/-- A thread without a deadline does not time out. -/
theorem Threads.Good.not_timesOut (good : t.Good) {r : Row} (inside : r ∈ t.rows)
    (waits : r.thread.state = .waiting) (quiet : r.deadline = 0) (deadline : UInt64) :
    ¬ t.TimesOut r.tid deadline := by
  intro out
  obtain ⟨q, among, same, can, -⟩ := out deadline (UInt64.le_refl _)
  obtain ⟨rows, sound, -⟩ := good
  have early : r.due deadline = false := by simp [Row.due, due, quiet]
  have still : r ∈ rows.map (Row.expire deadline) := by
    refine List.mem_map.mpr ⟨r, sound.mem_rows.mp inside, ?_⟩
    rw [Row.expire, if_neg (by simp [early])]
  have after := sound.at_ deadline
  rw [after.sorted.unique (after.mem_rows.mp among) still same, waits] at can
  cases can

/-- A thread that waits with a deadline and is not woken by a requeue times out, whatever
happens while it waits, exactly when the requeue has not moved it. -/
theorem Threads.Good.requeue_timesOut_iff {M : Type} [GuestMemory M] (good : t.Good)
    (apart : source ≠ target) (wake requeue : UInt32) {r : Row} (inside : r ∈ t.rows)
    (queued : r.tid ∈ t.waiters source) (timed : r.deadline ≠ 0)
    (unwoken : r.tid ∉ (t.waiters source).take wake.toNat) :
    (∀ t', Unwoken M r.tid (t.futexRequeue source target wake requeue).2 t' →
        t'.TimesOut r.tid r.deadline) ↔
      r.tid ∉ ((t.waiters source).drop wake.toNat).take requeue.toNat := by
  have rows := Good.requeueLoop_rows apart (wake.toNat + requeue.toNat) wake.toNat good r inside
  have done : Requeued source target (wake.toNat + requeue.toNat) wake.toNat t
      (t.futexRequeue source target wake requeue).1 (t.futexRequeue source target wake requeue).2 :=
    Sound.requeueLoop good (.inl apart)
  have once := done.handlesOnce apart
  rw [List.drop_take, Nat.add_sub_cancel_left] at rows
  constructor
  · intro out moved
    exact done.good.not_timesOut (rows.2 moved) rfl rfl _ (out _ .here)
  · intro unmoved t' run
    have still : r ∈ (t.futexRequeue source target wake requeue).2.rows := by
      refine rows.1 fun reached => ?_
      rw [List.take_add] at reached
      rcases List.mem_append.mp reached with first | second
      · exact unwoken first
      · exact unmoved second
    have waits : r.tid ∈ (t.futexRequeue source target wake requeue).2.waiters source := by
      rw [once.moved, if_pos rfl]
      refine List.mem_append_left _ ?_
      rw [← List.take_append_drop wake.toNat (t.waiters source)] at queued
      have second := (List.mem_append.mp queued).resolve_left unwoken
      rw [← List.take_append_drop requeue.toNat ((t.waiters source).drop wake.toNat)] at second
      exact (List.mem_append.mp second).resolve_left unmoved
    obtain ⟨last, there, a, queue⟩ := run.row done.good still waits
    exact last.timesOut there queue timed

end Deadlines

/-! ## Two that wait at one address -/

namespace Threads

/-- Thread 2 waits at address 64, and thread 3 runs. -/
def thirdRuns : Threads :=
  ((((new.setSpec 3).setKitRevision 2).after .start).after .start).after (.yieldValue 0) |>.after
    (.futexWait 64 0)

theorem thirdRuns_run :
    ∃ since, ThreadRun Zeros (fun t op => op.Fits t) thirdRuns since 4 := by
  have run : ThreadRun Zeros (fun t op => op.Fits t) _ _ _ := .new 3 2
  obtain ⟨since, run⟩ := run.step .start trivial (show (2 : UInt32) ≠ 0 by decide) rfl
  obtain ⟨since, run⟩ := run.step .start trivial (show (3 : UInt32) ≠ 0 by decide) rfl
  obtain ⟨since, run⟩ := run.step (.yieldValue 0) trivial trivial rfl
  exact run.step (.futexWait 64 0) trivial trivial rfl

/-- Threads 2 and 3 wait at address 64. -/
def twoAtOne : Threads :=
  thirdRuns.after (.futexWait 64 0)

theorem twoAtOne_good : twoAtOne.Good := by
  obtain ⟨since, run⟩ := thirdRuns_run
  obtain ⟨since, run⟩ := run.step (.futexWait 64 0) trivial trivial rfl
  exact run.inOrder.good

/-- One of the two is woken and the other moved, though more are asked for. -/
theorem Good.requeue_handlesOnce_two : twoAtOne.Good ∧ twoAtOne.waiters 64 = [2, 3] ∧
      twoAtOne.HandlesOnce 64 72 1 9 (twoAtOne.futexRequeue 64 72 1 9).1
        (twoAtOne.futexRequeue 64 72 1 9).2 :=
  ⟨twoAtOne_good, rfl,
    (Good.requeue_handlesOnce_iff twoAtOne_good 64 72 1 9).mpr (.inl (by decide))⟩

/-- Asked to move three of two from an address to itself, a requeue answers three: the first
of the two is handled twice, and ends behind the other. -/
theorem requeue_counts_twice : twoAtOne.Good ∧ twoAtOne.waiters 64 = [2, 3] ∧
      (twoAtOne.futexRequeue 64 64 0 3).1 = 3 ∧
      (twoAtOne.futexRequeue 64 64 0 3).2.waiters 64 = [3, 2] ∧
      ¬ twoAtOne.HandlesOnce 64 64 0 3 (twoAtOne.futexRequeue 64 64 0 3).1
        (twoAtOne.futexRequeue 64 64 0 3).2 := by
  refine ⟨twoAtOne_good, rfl, rfl, rfl, fun once => ?_⟩
  have bound := once.atMost
  exact absurd bound (show ¬ 3 ≤ 2 by decide)

/-- Thread 2 waits at address 64 until the clock reads 5000. -/
def timedAtOne : Threads :=
  secondRuns.after (.futexWaitTimeout 64 0 true 5000)

theorem timedAtOne_good : timedAtOne.Good := by
  have run : ThreadRun Zeros (fun t op => op.Fits t) _ _ _ := .new 3 2
  obtain ⟨since, run⟩ := run.step .start trivial (show (2 : UInt32) ≠ 0 by decide) rfl
  obtain ⟨since, run⟩ := run.step (.yieldValue 0) trivial trivial rfl
  obtain ⟨since, run⟩ := run.step (.futexWaitTimeout 64 0 true 5000) trivial trivial rfl
  exact run.inOrder.good

/-- Threads 2 and 3 wait at address 64, thread 3 until the clock reads 5000. -/
def timedBehind : Threads :=
  thirdRuns.after (.futexWaitTimeout 64 0 true 5000)

theorem timedBehind_good : timedBehind.Good := by
  obtain ⟨since, run⟩ := thirdRuns_run
  obtain ⟨since, run⟩ := run.step (.futexWaitTimeout 64 0 true 5000) trivial trivial rfl
  exact run.inOrder.good

/-- A requeue that moves thread 2 leaves thread 3 behind it its deadline. -/
theorem Good.requeue_timesOut_unmoved : timedBehind.waiters 64 = [2, 3] ∧
      (timedBehind.futexRequeue 64 72 0 1).2.waiters 64 = [3] ∧
      (timedBehind.futexRequeue 64 72 0 1).2.waiters 72 = [2] ∧
      (timedBehind.futexRequeue 64 72 0 1).2.TimesOut 3 5000 := by
  have inside : timedBehind.rows.getLast (by decide) ∈ timedBehind.rows :=
    List.getLast_mem _
  have out : ∀ t, Unwoken Zeros 3 (timedBehind.futexRequeue 64 72 0 1).2 t →
      t.TimesOut 3 5000 :=
    (Good.requeue_timesOut_iff timedBehind_good (by decide) 0 1 inside
      (by decide) (by decide) (by decide)).mpr (by decide)
  exact ⟨rfl, rfl, rfl, out _ .here⟩

/-- Thread 2 is moved from 64 to 72 before its deadline.  When the clock reads 10000 it waits
there without one, where it would have been out had it not been moved. -/
theorem requeue_drops_deadline : timedAtOne.Good ∧ timedAtOne.deadlines = [0, 5000] ∧
      timedAtOne.vclockNs = 0 ∧
      ((timedAtOne.futexRequeue 64 72 0 1).2.at_ 10000).waiters 72 = [2] ∧
      ((timedAtOne.futexRequeue 64 72 0 1).2.at_ 10000).deadlines = [0, 0] ∧
      ¬ (timedAtOne.futexRequeue 64 72 0 1).2.TimesOut 2 5000 ∧
      timedAtOne.TimesOut 2 5000 := by
  have good := timedAtOne_good
  have after : (timedAtOne.futexRequeue 64 72 0 1).2.Good :=
    (good.requeue (.inl (by decide))).1
  have unmoved : timedAtOne.rows.getLast (by decide) ∈ timedAtOne.rows :=
    List.getLast_mem _
  have moved : (timedAtOne.futexRequeue 64 72 0 1).2.rows.getLast (by decide) ∈
      (timedAtOne.futexRequeue 64 72 0 1).2.rows := List.getLast_mem _
  refine ⟨good, rfl, rfl, rfl, rfl, after.not_timesOut moved rfl rfl 5000, ?_⟩
  exact good.timesOut unmoved (show (2 : UInt32) ∈ timedAtOne.waiters 64 by decide)
    (by decide)

end Threads

end MiniBox
