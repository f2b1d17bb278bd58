import MiniBox.Threads.Run

/-!
# Wakes in order of arrival

`ThreadRun` is every run of a thread set, with what a look at its queues after each
operation tells of each waiter: the operation at which it came to the address it waits on.
In every run that starts threads only while there are ids left the set stays well formed,
and a wake takes those that came to its address first.

Ids are 32 bits wide and given out by counting.  A run that starts and ends threads long
enough comes to the main thread's id again, and then two threads share it.
-/

namespace MiniBox

open Lib

/-! ## Runs -/

/-- When a thread came to the address it waits on: `now`, unless it was waiting there
already. -/
def arrival (t t' : Threads) (since : UInt32 → Nat) (now : Nat) (tid : UInt32) : Nat :=
  if t'.futicies.any fun q => q.items.contains tid && (t.waiters q.key).contains tid then since tid
  else now

/-- The sets a run reaches, since when those who wait have waited, and how many operations
there have been. -/
inductive ThreadRun (M : Type) [GuestMemory M] (allowed : Threads → ThreadOp → Prop) :
    Threads → (UInt32 → Nat) → Nat → Prop where
  | new (spec : Nat) (revision : UInt32) :
      ThreadRun M allowed ((Threads.new.setSpec spec).setKitRevision revision) (fun _ => 0) 0
  | op {t : Threads} {since : UInt32 → Nat} {now : Nat} {c : Context} {memory : M} {reply : Reply}
      {m : Machine M} (op : ThreadOp) :
      ThreadRun M allowed t since now → op.Plain → allowed t op →
      op.run ⟨t, c, memory⟩ = .ok (reply, m) →
      ThreadRun M allowed m.threads (arrival t m.threads since now) (now + 1)
  /-- a saved set is loaded, with its history -/
  | loaded {t s s' u : Threads} {since since' : UInt32 → Nat} {now now' : Nat} {c d d' : Context}
      {bytes rest left : Bytes} :
      ThreadRun M allowed t since now → ThreadRun M allowed s since' now' →
      s.save c = (some bytes, s') → t.load d (bytes ++ rest) = (some left, u, d') →
      ThreadRun M allowed u since' now'
  /-- a saved set is refused -/
  | refused {t s s' u : Threads} {since since' : UInt32 → Nat} {now now' : Nat} {c d d' : Context}
      {bytes rest : Bytes} :
      ThreadRun M allowed t since now → ThreadRun M allowed s since' now' →
      s.save c = (some bytes, s') → t.load d (bytes ++ rest) = (none, u, d') →
      ThreadRun M allowed u since now

section Runs

variable {t u s s' : Threads} {since since' : UInt32 → Nat} {now : Nat}

theorem Threads.Good.new (spec : Nat) (revision : UInt32) :
    ((new.setSpec spec).setKitRevision revision).Good := by
  refine ⟨[⟨{ tid := 1 }, 0, 0⟩], ?_, ⟨{ tid := 1 }, 0, 0⟩, by simp, rfl, rfl⟩
  have only : ∀ r ∈ [(⟨{ tid := 1 }, 0, 0⟩ : Row)], r = ⟨{ tid := 1 }, 0, 0⟩ := by simp
  refine ⟨⟨rfl, rfl, rfl⟩, List.pairwise_singleton _ _, ?_, ?_, ?_, ?_, ?_⟩
  · intro r member
    rw [only r member]
    exact ⟨by decide, .inr (show (1 : UInt32) < 2 by decide)⟩
  · intro r member _
    rw [only r member]
    exact ⟨rfl, rfl⟩
  · intro _ r member
    rw [only r member]
  · intro r _ ends
    cases ends
  · refine Queues.Holds.nil.congr fun tid => ⟨False.elim, ?_⟩
    rintro ⟨-, r, member, -, waits⟩
    rw [only r member] at waits
    cases waits

/-- The set a load leaves is good when the saved one was. -/
theorem Threads.Good.restored (good : t.Good) (spec : u.spec = 3 ↔ t.spec = 3) :
    (u.restored t).Good := by
  obtain ⟨rows, sound, r, member, here, runs⟩ := good
  let clear := fun r : Row => { r with seq := 0 }
  have mem : ∀ {r}, r ∈ rows.map clear → ∃ q ∈ rows, r.thread = q.thread ∧ r.deadline = q.deadline ∧
      r.seq = 0 := fun inside => by
    obtain ⟨q, row, rfl⟩ := List.mem_map.mp inside
    exact ⟨q, row, rfl, rfl, rfl⟩
  refine ⟨rows.map clear, ?_, clear r, List.mem_map_of_mem member, here, runs⟩
  refine ⟨⟨?_, ?_, ?_⟩, ?_, ?_, ?_, ?_, ?_, ?_⟩
  · rw [List.map_map]
    exact sound.lists.threads
  · have column : (rows.map clear).map Row.deadline = t.deadlines := by
      rw [List.map_map]
      exact sound.lists.deadlines.symm
    rw [column]
    show (if t.spec = 3 then t.deadlines else _) = t.deadlines
    split
    · rfl
    · rename_i v2
      rw [← sound.lists.deadlines_length, eq_comm, List.eq_replicate_iff]
      refine ⟨rfl, fun d among => ?_⟩
      rw [sound.lists.deadlines] at among
      obtain ⟨q, row, rfl⟩ := List.mem_map.mp among
      exact sound.untimed v2 q row
  · show List.replicate t.threads.length 0 = _
    rw [List.map_map, sound.lists.threads, List.length_map]
    exact List.map_const'.symm
  · rw [Sorted, List.pairwise_map]
    exact sound.sorted
  · intro r inside
    obtain ⟨q, row, same, -, -⟩ := mem inside
    show r.thread.tid ≠ 0 ∧ (t.nextTid = 0 ∨ r.thread.tid < t.nextTid)
    rw [same]
    exact sound.ids q row
  · intro r inside can
    obtain ⟨q, row, same, deadline, mark⟩ := mem inside
    rw [same] at can
    exact ⟨deadline.trans (sound.unmarked q row can).1, mark⟩
  · intro v2 r inside
    obtain ⟨q, row, -, deadline, -⟩ := mem inside
    exact deadline.trans (sound.untimed (fun v3 => v2 (spec.mpr v3)) q row)
  · intro r _ ends
    cases ends
  · refine sound.holds.congr fun tid => and_congr_right fun _ => ⟨?_, ?_⟩
    · rintro ⟨q, row, id_, waits⟩
      exact ⟨clear q, List.mem_map_of_mem row, id_, waits⟩
    · rintro ⟨r, inside, id_, waits⟩
      obtain ⟨q, row, same, -, -⟩ := mem inside
      refine ⟨q, row, ?_, ?_⟩
      · rw [← id_]
        exact (congrArg GThread.tid same).symm
      · rw [← same]
        exact waits

/-- What a load of a saved set can do. -/
theorem Threads.Good.load {c d d' : Context} {bytes rest : Bytes} {left : Option Bytes}
    (good : s.Good) (saved : s.save c = (some bytes, s'))
    (read : t.load d (bytes ++ rest) = (left, u, d')) :
    (left = none ∧ u = t) ∨ left = some rest ∧ u.Good ∧ ∀ a, u.waiters a = s.waiters a := by
  have main : s.activeTid = 1 ∧ bytes = (s.settle c).encode c := by
    unfold Threads.save at saved
    split at saved
    · cases saved
    · rename_i main
      cases saved
      exact ⟨not_not.mp main, rfl⟩
  obtain ⟨main, rfl⟩ := main
  by_cases spec : t.spec = 3 ↔ s.spec = 3
  · by_cases active : t.activeTid = 1
    · rw [good.wellFormed.load main c spec active] at read
      cases read
      have settled : (s.settle c).Good :=
        (good.touch 1 (fun _ => rfl) (fun _ => rfl) : s.Leads (s.settle c)).1
      exact .inr ⟨rfl, settled.restored spec, fun _ => rfl⟩
    · rw [Threads.load, if_pos active] at read
      cases read
      exact .inl ⟨rfl, rfl⟩
  · rw [Threads.load_refused (t := s.settle c) spec] at read
    cases read
    exact .inl ⟨rfl, rfl⟩

/-- The queues stand in order of arrival. -/
structure Threads.InOrder (t : Threads) (since : UInt32 → Nat) (now : Nat) : Prop where
  good : t.Good
  ordered : ∀ a, (t.waiters a).Pairwise fun x y => since x ≤ since y
  past : ∀ a, ∀ x ∈ t.waiters a, since x ≤ now

theorem arrival_eq (good : u.Good) {a : UInt64} {tid : UInt32} (member : tid ∈ u.waiters a) :
    arrival t u since now tid = if tid ∈ t.waiters a then since tid else now := by
  obtain ⟨rows, sound, -⟩ := good
  obtain ⟨q, among, here, items⟩ := Queues.exists_of_mem_queued member
  have inside : tid ∈ q.items := items ▸ member
  unfold arrival
  by_cases before : tid ∈ t.waiters a
  · rw [if_pos before, if_pos]
    rw [List.any_eq_true]
    exact ⟨q, among, by simp [inside, here, before]⟩
  · rw [if_neg before, if_neg]
    intro found
    obtain ⟨p, other, both⟩ := List.any_eq_true.mp found
    simp only [Bool.and_eq_true, List.contains_iff_mem] at both
    -- nobody waits in two places, so the queue found is the one at `a`
    have there : tid ∈ u.waiters p.key := by
      show tid ∈ u.futicies.queued p.key
      rw [Queues.queued_of_mem sound.holds.tidy.distinct other]
      exact both.1
    rw [sound.holds.single there member] at both
    exact before both.2

theorem Threads.InOrder.step (order : t.InOrder since now) (leads : t.Leads u) :
    u.InOrder (arrival t u since now) (now + 1) where
  good := leads.1
  ordered := fun a => (leads.2 a).pairwise (order.ordered a) (order.past a)
    fun _ member => arrival_eq leads.1 member
  past := fun a x member => by
    rw [arrival_eq leads.1 member]
    split
    · rename_i before
      exact Nat.le_succ_of_le (order.past a x before)
    · exact Nat.le_succ now

theorem ThreadRun.inOrder {M : Type} [GuestMemory M]
    (run : ThreadRun M (fun t op => op.Fits t) t since now) : t.InOrder since now := by
  induction run with
  | new spec revision =>
    exact ⟨.new spec revision, fun _ => List.Pairwise.nil, fun _ _ member => by cases member⟩
  | op op _ plain fits ran ih => exact ih.step (ThreadOp.leads ih.good plain fits ran)
  | loaded _ _ saved read before was =>
    rcases was.good.load saved read with ⟨none_, -⟩ | ⟨-, good, same⟩
    · cases none_
    · exact ⟨good, fun a => same a ▸ was.ordered a, fun a => same a ▸ was.past a⟩
  | refused _ _ saved read before was =>
    rcases was.good.load saved read with ⟨-, rfl⟩ | ⟨some_, -, -⟩
    · exact before
    · cases some_

/-- In every run that starts threads only while there are ids left, the set is well formed,
and a wake makes runnable exactly the ones that came to its address first, as many as it
is asked for or as wait there. -/
theorem ThreadRun.wellFormed_wakes {M : Type} [GuestMemory M]
    (run : ThreadRun M (fun t op => op.Fits t) t since now) :
    t.WellFormed ∧ ∀ (addr : UInt64) (n : UInt32),
      let woken := (t.waiters addr).take n.toNat
      let left := (t.waiters addr).drop n.toNat
      (t.futexWake addr n).1 = min n.toNat (t.waiters addr).length ∧
      (t.futexWake addr n).2.threads =
        t.threads.map (fun g => if g.tid ∈ woken then { g with state := .runnable } else g) ∧
      (t.futexWake addr n).2.waiters addr = left ∧
      ∀ x ∈ woken, ∀ y ∈ left, since x ≤ since y := by
  have order := run.inOrder
  refine ⟨order.good.wellFormed, fun addr n => ?_⟩
  have woke : Threads.Requeued addr 0 (n.toNat + 0) n.toNat t (t.futexWake addr n).1
      (t.futexWake addr n).2 := Threads.Sound.requeueLoop order.good (.inr (Nat.le_refl _))
  have count := woke.count_eq
  rw [Nat.add_zero] at count
  have taken : (t.waiters addr).take (t.futexWake addr n).1 = (t.waiters addr).take n.toNat := by
    rw [count]
    exact List.take_eq_take_min.symm
  have dropped : (t.waiters addr).drop (t.futexWake addr n).1 = (t.waiters addr).drop n.toNat := by
    rw [count]
    exact List.drop_eq_drop_min.symm
  refine ⟨count, ?_, ?_, ?_⟩
  · rw [woke.threads, taken, List.take_take, Nat.min_self]
  · rw [woke.waiters, if_pos rfl, dropped]
  · have ordered := order.ordered addr
    rw [← List.take_append_drop n.toNat (t.waiters addr), List.pairwise_append] at ordered
    exact ordered.2.2

end Runs

/-! ## A run with a waiter -/

/-- A memory that reads as one word everywhere and takes every write. -/
structure Steady (word : UInt64) where
  deriving DecidableEq

instance (word : UInt64) : GuestMemory (Steady word) where
  read32 m _ := (word.toUInt32, m)
  read64 m _ := (word, m)
  write32 m _ _ := m
  write64 m _ _ := m
  protectStack m _ := (.ok (), m)

/-- A memory that reads as zero. -/
abbrev Zeros := Steady 0

/-- The registers of a guest that keeps nothing in them. -/
def Context.zero : Context := ⟨0, 0, 0, 0⟩

/-- The set an operation leaves, in a memory of zeros. -/
def Threads.after (t : Threads) (op : ThreadOp) : Threads :=
  match op.run (⟨t, .zero, {}⟩ : Machine Zeros) with
  | .ok (_, m) => m.threads
  | .error _ => t

/-- An operation that starts a thread with no word to clear. -/
def ThreadOp.start : ThreadOp := .spawn 1 0 0 0 0 1

/-- A second thread, waiting on address 64 for the main thread to wake it. -/
def Threads.oneWaits : Threads :=
  ((((new.setSpec 3).setKitRevision 2).after .start).after (.yieldValue 0)).after
    (.futexWait 64 0)

theorem ThreadRun.step {allowed : Threads → ThreadOp → Prop} {t : Threads} {since : UInt32 → Nat}
    {now : Nat} (run : ThreadRun Zeros allowed t since now) (op : ThreadOp) (plain : op.Plain)
    (ok : allowed t op) (alive : (op.run (⟨t, .zero, {}⟩ : Machine Zeros)).isOk = true) :
    ∃ since', ThreadRun Zeros allowed (t.after op) since' (now + 1) := by
  cases ran : op.run (⟨t, .zero, {}⟩ : Machine Zeros) with
  | error e => rw [ran] at alive; cases alive
  | ok answer =>
    obtain ⟨reply, m⟩ := answer
    have set_ : t.after op = m.threads := by
      unfold Threads.after
      rw [ran]
    rw [set_]
    exact ⟨_, .op op run plain ok ran⟩

theorem ThreadRun.wellFormed_wakes_oneWaits : ∃ since now,
    ThreadRun Zeros (fun t op => op.Fits t) Threads.oneWaits since now ∧
      Threads.oneWaits.waiters 64 = [2] ∧ (Threads.oneWaits.futexWake 64 1).1 = 1 := by
  have run : ThreadRun Zeros (fun t op => op.Fits t) _ _ _ := .new 3 2
  obtain ⟨since, run⟩ := run.step .start trivial (show (2 : UInt32) ≠ 0 by decide) rfl
  obtain ⟨since, run⟩ := run.step (.yieldValue 0) trivial trivial rfl
  obtain ⟨since, run⟩ := run.step (.futexWait 64 0) trivial trivial rfl
  have queue : Threads.oneWaits.waiters 64 = [2] := rfl
  refine ⟨since, _, run, queue, ?_⟩
  have woken := (wellFormed_wakes run).2 64 1
  exact woken.1

/-! ## Ids run out -/

/-- The main thread alone, with the next id. -/
def Threads.lone (next : UInt32) : Threads := { new with nextTid := next }

/-- The main thread and one it started. -/
def Threads.pair (active tid : UInt32) : Threads :=
  { lone (tid + 1) with
    activeTid := active
    threads := [{ tid := 1 }, { tid, rsp := 0 - 16, threadArea := 1 }]
    deadlines := [0, 0], seqs := [0, 0] }

section Wrap

variable (spec : Nat) (revision : UInt32)

theorem Threads.lone_start {n : UInt32} (above : 1 < n) :
    (((lone n).setSpec spec).setKitRevision revision).after .start =
      ((pair 1 n).setSpec spec).setKitRevision revision := by
  have place : ¬ n < 1 := by grind
  simp [pair, after, ThreadOp.start, ThreadOp.run, Machine.spawn, lone,
    new, insertThread, insertIndex, Context.zero, GuestMemory.read64,
    GuestMemory.protectStack, place, sok, setSpec, setKitRevision]

theorem Threads.pair_yield {n : UInt32} (above : 1 < n) :
    (ThreadOp.yieldValue 0).run (⟨((pair 1 n).setSpec spec).setKitRevision revision,
        .zero, {}⟩ : Machine Zeros) =
      .ok (.word 0, ⟨((pair n n).setSpec spec).setKitRevision revision,
        ⟨0 - 16, 1, 0, 0⟩, {}⟩) := by
  have other : 1 ≠ n := by grind
  simp [ThreadOp.run, answer, Machine.yieldValue, Machine.switched, swapToNext,
    swapLoop, swapTo, pair, lone, store, onThread,
    threadIndex, nextRunnable, findThread, Context.zero,
    setSpec, setKitRevision, List.findIdx_cons, above, other, other.symm]

theorem Threads.pair_exit {n : UInt32} (above : 1 < n) :
    ThreadOp.exit.run (⟨((pair n n).setSpec spec).setKitRevision revision, .zero, {}⟩ :
        Machine Zeros) =
      .ok (.word 0, ⟨((lone (n + 1)).setSpec spec).setKitRevision revision, .zero, {}⟩) := by
  have other : 1 ≠ n := by grind
  have differ : ((1 : UInt32) == n) = false := by simp [other]
  have below : ¬ n < 1 := by grind
  simp [ThreadOp.run, answer, Machine.exit, Machine.leave, Machine.yield, Machine.yieldValue,
    Machine.switched, swapToNext, swapLoop, swapTo, pair,
    lone, new, store, onThread, threadIndex,
    nextRunnable, findThread, removeThread, Context.zero, sok,
    insertThread, insertIndex, setSpec, setKitRevision,
    List.findIdx_cons, other, other.symm, differ, below]

variable {spec : Nat} {revision : UInt32} {since : UInt32 → Nat} {now : Nat}
variable {allowed : Threads → ThreadOp → Prop}

/-- A thread is started, runs and exits. -/
theorem ThreadRun.round (all : ∀ t op, ThreadOp.Fits t op → allowed t op) {n : UInt32}
    (above : 1 < n)
    (run : ThreadRun Zeros allowed
      (((Threads.lone n).setSpec spec).setKitRevision revision) since now) :
    ∃ since now, ThreadRun Zeros allowed
      (((Threads.lone (n + 1)).setSpec spec).setKitRevision revision) since now := by
  have some_ : n ≠ 0 := by grind
  obtain ⟨since, run⟩ := run.step .start trivial (all _ _ some_) rfl
  rw [Threads.lone_start spec revision above] at run
  exact ⟨_, _, .op .exit
    (.op (.yieldValue 0) run trivial (all _ _ trivial) (Threads.pair_yield spec revision above))
    trivial (all _ _ trivial) (Threads.pair_exit spec revision above)⟩

/-- Every id can be the next one. -/
theorem ThreadRun.lone (all : ∀ t op, ThreadOp.Fits t op → allowed t op) (spec : Nat)
    (revision : UInt32) : (k : Nat) → k + 2 ≤ 2 ^ 32 → ∃ since now, ThreadRun Zeros allowed
      (((Threads.lone (UInt32.ofNat (k + 2))).setSpec spec).setKitRevision revision) since now
  | 0, _ => ⟨_, _, .new spec revision⟩
  | k + 1, small => by
    obtain ⟨since, now, run⟩ := lone all spec revision k (by omega)
    have above : 1 < UInt32.ofNat (k + 2) := by
      rw [UInt32.lt_iff_toNat_lt, UInt32.toNat_ofNat_of_lt' (show k + 2 < 2 ^ 32 by omega)]
      simp
    have next : UInt32.ofNat (k + 2) + 1 = UInt32.ofNat (k + 1 + 2) :=
      (UInt32.ofNat_add (k + 2) 1).symm
    have run := run.round all above
    rwa [next] at run

/-- After every id has been given out once, a second thread gets the id of the main one. -/
theorem ThreadRun.two_main_threads : ∃ t since now,
    ThreadRun Zeros (fun _ _ => True) t since now ∧ t.threads.map GThread.tid = [0, 1, 1] ∧
      ¬ t.WellFormed := by
  obtain ⟨since, now, run⟩ : ∃ since now, ThreadRun Zeros (fun _ _ => True) _ since now :=
    lone (fun _ _ _ => trivial) 2 0 (2 ^ 32 - 2) (by decide)
  obtain ⟨since, run⟩ := run.step .start trivial trivial rfl
  obtain ⟨since, run⟩ := run.step .start trivial trivial rfl
  refine ⟨_, _, _, run, rfl, fun formed => ?_⟩
  have ascends := List.pairwise_map.mpr formed.ascending
  exact absurd (show List.Pairwise LT.lt [(0 : UInt32), 1, 1] from ascends) (by decide)

end Wrap

end MiniBox
