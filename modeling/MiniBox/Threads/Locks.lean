import MiniBox.Threads.Requeue

/-!
# Locks with their waiters in line

A lock is a word of the guest.  It is 0 when nobody holds the lock, and the holder's id
otherwise, with the top bit set while others are in line.  A thread takes a free lock and
drops one nobody waits for without the host; `FUTEX_LOCK_PI` and `FUTEX_UNLOCK_PI` do the
rest.  So the lock is in two places, the word and the queue at its address, and the host
sees only its own steps.

A run interleaves the steps of the C library and of the host on one word with anything else
the threads do.  Along it are kept who holds the lock, who has come to the queue, and to
whom the lock has been passed.  `LockRun.fairLock` is what the word tells of these.

An id has the whole word and the word has a bit less.  A thread whose id has the top bit
makes a lock it takes look as if others waited.
-/

namespace MiniBox

open Lib GuestMemory

/-! ## A word of the guest -/

/-- The memories in which the word at an address is an ordinary one: a read gives what was
written last. -/
structure Word (M : Type) [GuestMemory M] (addr : UInt64) where
  ok : M → Prop
  read_ok : ∀ {m}, ok m → ok (read32 m addr).2
  read_read : ∀ {m}, ok m → (read32 (read32 m addr).2 addr).1 = (read32 m addr).1
  write_ok : ∀ {m} v, ok m → ok (write32 m addr v)
  read_write : ∀ {m} v, ok m → (read32 (write32 m addr v) addr).1 = v

def Machine.word {M : Type} [GuestMemory M] (m : Machine M) (addr : UInt64) : UInt32 :=
  (read32 m.memory addr).1

/-! ## Operations elsewhere -/

/-- The operations that look at an address or wait there. -/
def ThreadOp.At (t : Threads) (addr : UInt64) : ThreadOp → Prop
  | .futexWait a _ => a = addr
  | .futexWaitTimeout a _ _ _ => a = addr
  | .futexLockPi a => a = addr
  | .futexRequeue source target _ _ => source = addr ∨ target = addr
  | op => op.WakesAt t addr

/-- The operations of threads: a load replaces them all. -/
def ThreadOp.Lives : ThreadOp → Prop
  | .load _ => False
  | _ => True

/-- Nobody waits at the address with a deadline. -/
def Threads.Untimed (t : Threads) (addr : UInt64) : Prop :=
  ∀ r ∈ t.rows, r.tid ∈ t.waiters addr → r.deadline = 0

/-- The queue at an address as it was, and nobody in it with a deadline. -/
structure Threads.Stands (addr : UInt64) (t t' : Threads) : Prop where
  good : t'.Good
  waiters : t'.waiters addr = t.waiters addr
  untimed : t'.Untimed addr

section Stands

variable {t t' s : Threads} {rows : List Row} {away : Option UInt32} {addr a : UInt64}
  {c c' : Context} {ret w : UInt64} {y : UInt32}

namespace Threads

/-- One who waits without a deadline stays until somebody wakes it. -/
theorem Fate.untimed {wakes : Prop} {r : Row} (fate : Fate wakes addr t t' r)
    (unwoken : ¬ wakes) (quiet : r.deadline = 0) : r ∈ t'.rows ∧ r.tid ∈ t'.waiters addr := by
  cases fate with
  | stays still there _ => exact ⟨still, there⟩
  | woken wakes => exact absurd wakes unwoken
  | expired _ ended =>
    rw [Row.due, due, quiet] at ended
    simp at ended

/-- A queue from which nobody has gone, and to which nobody has come. -/
theorem Good.stands (after : t'.Good) (sound : t.Sound rows away) (untimed : t.Untimed addr)
    (behind : Behind (t.waiters addr) (t'.waiters addr))
    (fewer : ∀ y ∈ t'.waiters addr, y ∈ t.waiters addr)
    (stay : ∀ r ∈ t.rows, r.tid ∈ t.waiters addr → r ∈ t'.rows ∧ r.tid ∈ t'.waiters addr) :
    Stands addr t t' := by
  have row : ∀ y ∈ t.waiters addr, ∃ r ∈ t.rows, r.tid = y := by
    intro y queued
    obtain ⟨-, r, member, here, -⟩ := (sound.holds.mem y).mp ⟨addr, queued⟩
    exact ⟨r, sound.mem_rows.mpr member, here⟩
  refine ⟨after, ?_, fun q among queued => ?_⟩
  · obtain ⟨new, parts, fresh⟩ := behind
    have none_ : new = [] := by
      refine List.eq_nil_iff_forall_not_mem.mpr fun y member => fresh y member (fewer y ?_)
      rw [parts]
      exact List.mem_append_right _ member
    rw [none_, List.append_nil] at parts
    rw [parts]
    refine List.filter_eq_self.mpr fun y queued => ?_
    obtain ⟨r, inside, rfl⟩ := row y queued
    simpa using (stay r inside queued).2
  · obtain ⟨r, inside, here⟩ := row q.tid (fewer _ queued)
    have there : r.tid ∈ t.waiters addr := here ▸ fewer _ queued
    rw [after.row_unique among (stay r inside there).1 here.symm]
    exact untimed r inside there

/-- A switch leaves those who wait without a deadline. -/
theorem Sound.switch_stands (sound : t.Sound rows none) (untimed : t.Untimed addr)
    (ran : t.swapToNext c ret = .ok (w, t', c')) :
    Stands addr t t' := by
  obtain ⟨good, queues⟩ := sound.swapToNext ran
  obtain ⟨keep, queue⟩ := queues addr
  have stored := sound.store c ret
  have quiet : (t.store c ret).Untimed addr := by
    intro r inside queued
    rcases mem_map_on.mp (stored.mem_rows.mp inside) with ⟨q, member, -, rfl⟩ | ⟨member, -⟩
    · exact untimed q (sound.mem_rows.mpr member) queued
    · exact untimed r (sound.mem_rows.mpr member) queued
  have fewer : ∀ y ∈ t'.waiters addr, y ∈ t.waiters addr := fun y there => by
    rw [queue] at there
    exact (List.mem_filter.mp there).1
  have behind : Behind (t.waiters addr) (t'.waiters addr) := by
    rw [queue]
    exact (Behind.refl _).filter keep
  have switched := fun x => sound.store_switched ran x
  have stands : Stands addr (t.store c ret) t' :=
    Good.stands good stored quiet behind fewer fun r inside queued =>
      ((switched r.tid).waiting r inside rfl addr queued).untimed id (quiet r inside queued)
  exact ⟨stands.good, stands.waiters, stands.untimed⟩

/-- So does a switch to one thread. -/
theorem Sound.swapTo_stands {tid : UInt32} (sound : t.Sound rows none)
    (untimed : t.Untimed addr) (runs : ∃ r ∈ rows, r.tid = tid ∧ r.thread.state = .runnable)
    (ran : t.swapTo c tid ret = .ok (w, t', c')) : Stands addr t t' := by
  obtain ⟨good, queues⟩ := sound.swapTo runs ran
  refine ⟨good, queues addr, fun r inside queued => ?_⟩
  rw [queues] at queued
  rw [swapTo_eq ran] at inside
  rcases mem_map_on.mp ((sound.store c ret).mem_rows.mp inside) with ⟨q, member, -, rfl⟩ | ⟨member,
    -⟩
  · exact untimed q (sound.mem_rows.mpr member) queued
  · exact untimed r (sound.mem_rows.mpr member) queued

/-! ## Who comes to a queue -/

theorem Sound.switch_fewer (sound : t.Sound rows away)
    (ran : t.swapToNext c ret = .ok (w, t', c')) (there : y ∈ t'.waiters a) :
    y ∈ t.waiters a := by
  obtain ⟨keep, queue⟩ := (sound.swapToNext ran).2 a
  rw [queue] at there
  exact (List.mem_filter.mp there).1

theorem Sound.at_fewer (sound : t.Sound rows away) {clock : UInt64}
    (there : y ∈ (t.at_ clock).waiters a) : y ∈ t.waiters a := by
  have moved : Threads.Sound { t with vclockNs := clock } rows away :=
    sound.same rfl rfl rfl rfl rfl rfl
  obtain ⟨keep, queue⟩ := moved.expireDue_waiters a
  change y ∈ (Threads.expireDue _).waiters a at there
  rw [queue] at there
  exact (List.mem_filter.mp there).1

theorem park_elsewhere (t : Threads) (off : a ≠ addr) (tid : UInt32) :
    (t.park a tid).waiters addr = t.waiters addr := by
  show Queues.queued (t.futicies.extend a [tid]) addr = _
  rw [Queues.queued_extend, if_neg off.symm]
  rfl

theorem Sound.unparkOne_fewer (sound : t.Sound rows away) (b : UInt64)
    (there : y ∈ (t.unparkOne b).2.waiters a) : y ∈ t.waiters a := by
  rcases sound.unparkOne b with ⟨-, answer⟩ | ⟨tid, rest, head, answer⟩
  · rw [answer] at there
    exact there
  · rw [answer] at there
    change y ∈ waiters { t.wake tid with futicies := t.futicies.put b rest } a at there
    rw [sound.wake_waiters head] at there
    split at there
    · rename_i here
      rw [here, head]
      exact List.mem_cons_of_mem _ there
    · exact there

theorem Touched.fewer (touched : t.Touched t') (there : y ∈ t'.waiters a) : y ∈ t.waiters a := by
  cases touched with
  | same => exact there
  | row _ _ => exact there

/-- A requeue between other addresses. -/
theorem Good.requeue_stands {source target : UInt64} (from_ : source ≠ addr)
    (onto : target ≠ addr) : ∀ (left wake : Nat) {t : Threads}, t.Good → t.Untimed addr →
      Stands addr t (requeueLoop source target left wake t).2
  | 0, _, t, good, untimed => ⟨good, rfl, untimed⟩
  | left + 1, wake, t, good, untimed => by
    obtain ⟨rows, sound, runs⟩ := id good
    cases head : t.waiters source with
    | nil =>
      rw [sound.requeueLoop_nil head]
      exact ⟨good, rfl, untimed⟩
    | cons tid rest =>
      have queued : tid ∈ t.waiters source := by simp [head]
      obtain ⟨others, -⟩ := sound.turn_rows head target wake
      have turn : (t.turned source target wake tid rest).Good ∧
          (t.turned source target wake tid rest).waiters addr = t.waiters addr := by
        unfold turned
        split
        · obtain ⟨good, -, queues⟩ := sound.move runs head target
          refine ⟨good, ?_⟩
          rw [queues, if_neg from_.symm, if_neg onto.symm, List.append_nil]
        · rename_i some_
          refine ⟨(sound.wake_turn runs head some_ target).good, ?_⟩
          rw [sound.wake_waiters head, if_neg from_.symm]
      rw [sound.requeueLoop_head head]
      generalize t.turned source target wake tid rest = s at others turn ⊢
      obtain ⟨good', queue⟩ := turn
      have same : Stands addr t s := by
        refine good'.stands sound untimed (queue ▸ .refl _) (fun y there => queue ▸ there) ?_
        intro r inside there
        refine ⟨others r inside fun first => ?_, queue ▸ there⟩
        exact from_ (sound.holds.single queued (first ▸ there))
      split
      · obtain ⟨good, waiters, untimed⟩ :=
          Good.requeue_stands from_ onto left (wake - 1) same.good same.untimed
        exact ⟨good, waiters.trans same.waiters, untimed⟩
      · exact same

end Threads

end Stands

section Elsewhere

variable {M : Type} {m m' : Machine M} {addr a : UInt64} {y : UInt32} {w : UInt64} [GuestMemory M]
  {op : ThreadOp} {reply : Reply}

omit [GuestMemory M] in
theorem ThreadOp.Readies.fewer {s : Threads} (readies : op.Readies m s) (good : m.threads.Good)
    (off : ¬ op.ParksAt addr) (there : y ∈ s.waiters addr) :
    y ∈ m.threads.waiters addr := by
  obtain ⟨rows, sound, -⟩ := good
  cases readies with
  | same => exact there
  | ticked => exact sound.at_fewer there
  | @parked a at_ =>
    have apart : a ≠ addr := fun here => off (here ▸ at_)
    rwa [m.threads.park_elsewhere apart m.threads.activeTid] at there
  | @timed a deadline at_ _ =>
    have apart : a ≠ addr := fun here => off (here ▸ at_)
    rwa [← m.threads.park_elsewhere apart m.threads.activeTid]

/-- Nobody comes to an address by an operation elsewhere. -/
theorem ThreadOp.fewer (good : m.threads.Good) (keeps : op.Keeps) (off : ¬ op.At m.threads addr)
    (ran : op.run m = .ok (reply, m')) (there : y ∈ m'.threads.waiters addr) :
    y ∈ m.threads.waiters addr := by
  obtain ⟨rows, sound, runs⟩ := id good
  have unparked : ¬ op.ParksAt addr := fun parks => by
    cases op <;> first | exact off parks | cases parks
  have way := way good ran
  generalize m'.threads = t' at way there
  cases way with
  | touched touched => exact touched.fewer there
  | spawned _ _ => exact there
  | advanced ns => exact sound.at_fewer there
  | switched readies next =>
    obtain ⟨⟨rows', ready⟩, -, -⟩ := readies.sound good
    exact readies.fewer good unparked (ready.switch_fewer next there)
  | @passed a _ _ _ _ _ _ _ _ woke next =>
    refine sound.unparkOne_fewer a ?_
    rw [woke]
    rw [Threads.swapTo_eq next] at there
    exact there
  | @left self _ _ _ _ _ _ next _ =>
    obtain ⟨-, ⟨rows', left⟩, -⟩ := Machine.leave_sound good self
    have before := left.switch_fewer next there
    unfold Machine.leave at before
    split at before
    · exact before
    · exact sound.unparkOne_fewer self.tidAddress before
  | @woke a count _ =>
    have woke : Threads.Requeued a 0 (count.toNat + 0) count.toNat m.threads _ _ :=
      Threads.Sound.requeueLoop good (.inr (Nat.le_refl _))
    change y ∈
      (Threads.requeueLoop a 0 (count.toNat + 0) count.toNat m.threads).2.waiters addr at there
    rw [woke.waiters, if_neg fun here => off here.symm] at there
    split at there
    · -- a wake moves nobody
      have count_eq := woke.count_eq
      have few : ((m.threads.waiters a).take
          (Threads.requeueLoop a 0 (count.toNat + 0) count.toNat m.threads).1).length ≤
            count.toNat := by
        rw [List.length_take]
        omega
      rw [List.drop_eq_nil_of_le few, List.append_nil] at there
      exact there
    · exact there
  | requeued => cases keeps
  | loaded => cases keeps

/-- An operation elsewhere leaves a queue in which nobody has a deadline. -/
theorem ThreadOp.stands (good : m.threads.Good) (lives : op.Lives) (fits : op.Fits m.threads)
    (off : ¬ op.At m.threads addr) (untimed : m.threads.Untimed addr)
    (ran : op.run m = .ok (reply, m')) :
    Threads.Stands addr m.threads m'.threads := by
  obtain ⟨rows, sound, runs⟩ := id good
  have kept : op.Keeps → Threads.Stands addr m.threads m'.threads := by
    intro keeps
    have leads := leads good keeps.plain fits ran
    refine leads.1.stands sound untimed (leads.2 addr) (fun y there => ?_) fun r inside queued => ?_
    · exact fewer good keeps off ran there
    · obtain ⟨w, follows, -⟩ :=
        follows good keeps fits ran (sound.not_active runs queued)
      refine (follows.waiting r inside rfl addr queued).untimed (fun wakes => off ?_)
        (untimed r inside queued)
      cases op <;> first | exact wakes | cases wakes
  cases op with
  | futexRequeue source target wake requeue =>
    cases ran
    obtain ⟨from_, onto⟩ := not_or.mp off
    exact Threads.Good.requeue_stands from_ onto _ _ good untimed
  | load => cases lives
  | _ => exact kept trivial

end Elsewhere

/-! ## Words and ids -/

section Bits

variable {x : UInt32}

/-- The ids a word has room for. -/
def lockIds : UInt32 := 0x7fffffff

theorem UInt32.eq_of_testBit {x y : UInt32} (same : ∀ i, x.toNat.testBit i = y.toNat.testBit i) :
    x = y := UInt32.toNat_inj.mp (Nat.eq_of_testBit_eq same)

theorem and_lockIds (x : UInt32) : (x &&& lockIds).toNat = x.toNat % 2 ^ 31 := by
  rw [UInt32.toNat_and, show lockIds.toNat = 2 ^ 31 - 1 from rfl, Nat.and_two_pow_sub_one_eq_mod]

theorem testBit_futexWaiters (i : Nat) :
    Machine.futexWaiters.toNat.testBit i = decide (31 = i) := by
  rw [show Machine.futexWaiters.toNat = 2 ^ 31 from rfl, Nat.testBit_two_pow]

section

variable (below : x < 0x80000000)
include below

theorem id_lt : x.toNat < 2 ^ 31 := UInt32.lt_iff_toNat_lt.mp below

theorem id_and_lockIds : x &&& lockIds = x := by
  rw [← UInt32.toNat_inj, and_lockIds, Nat.mod_eq_of_lt (id_lt below)]

theorem id_or_waiters_and_lockIds : (x ||| Machine.futexWaiters) &&& lockIds = x := by
  rw [← UInt32.toNat_inj, and_lockIds, UInt32.toNat_or, Nat.or_mod_two_pow,
    Nat.mod_eq_of_lt (id_lt below)]
  exact Nat.or_zero _

theorem id_and_waiters : x &&& Machine.futexWaiters = 0 := by
  refine UInt32.eq_of_testBit fun i => ?_
  rw [UInt32.toNat_and, Nat.testBit_and, testBit_futexWaiters]
  by_cases top : 31 = i
  · subst top
    simp [Nat.testBit_lt_two_pow (id_lt below)]
  · simp [top]

end

theorem or_waiters_and_waiters (x : UInt32) :
    (x ||| Machine.futexWaiters) &&& Machine.futexWaiters = Machine.futexWaiters := by
  refine UInt32.eq_of_testBit fun i => ?_
  rw [UInt32.toNat_and, Nat.testBit_and, UInt32.toNat_or, Nat.testBit_or, testBit_futexWaiters]
  by_cases top : 31 = i
  · simp [top]
  · simp [top]

end Bits

/-! ## Runs -/

/-- What may happen: a step of the C library, one of the host, an operation elsewhere, or
anything the guest does to the rest of its memory and its registers. -/
inductive LockStep where
  | take
  | drop
  | lock
  | unlock
  | other (op : ThreadOp)
  | guest

/-- The threads that use the lock have ids that fit the word, and there is an id left for a
thread that is started. -/
def LockStep.Fits (t : Threads) : LockStep → Prop
  | .take => t.activeTid < 0x80000000
  | .drop => t.activeTid < 0x80000000
  | .lock => t.activeTid < 0x80000000
  | .other op => op.Fits t
  | _ => True

/-- A run of the threads of a machine with a lock: who holds it, who has come to its queue, and
to whom it has been passed, each in order. -/
inductive LockRun {M : Type} [GuestMemory M] {addr : UInt64} (word : Word M addr)
    (allowed : Threads → LockStep → Prop) :
    Machine M → (holders came passed : List UInt32) → Prop where
  | start {m : Machine M} : m.threads.Good → m.threads.waiters addr = [] → word.ok m.memory →
      m.word addr = 0 → LockRun word allowed m [] [] []
  /-- 0 to the thread's own id, without the host -/
  | take {m : Machine M} {holders came passed : List UInt32} :
      LockRun word allowed m holders came passed → allowed m.threads .take → m.word addr = 0 →
      LockRun word allowed { m with memory := write32 m.memory addr m.threads.activeTid }
        (m.threads.activeTid :: holders) came passed
  /-- the thread's own id to 0, without the host -/
  | drop {m : Machine M} {holders came passed : List UInt32} :
      LockRun word allowed m holders came passed → allowed m.threads .drop →
      m.word addr = m.threads.activeTid →
      LockRun word allowed { m with memory := write32 m.memory addr 0 }
        (holders.erase m.threads.activeTid) came passed
  /-- a lock that is free when the host looks -/
  | locks {m m' : Machine M} {holders came passed : List UInt32} {w : UInt64} :
      LockRun word allowed m holders came passed → allowed m.threads .lock → m.word addr = 0 →
      m.futexLockPi addr = .ok (w, m') →
      LockRun word allowed m' (m.threads.activeTid :: holders) came passed
  /-- a lock that is not -/
  | queues {m m' : Machine M} {holders came passed : List UInt32} {w : UInt64} :
      LockRun word allowed m holders came passed → allowed m.threads .lock → m.word addr ≠ 0 →
      m.futexLockPi addr = .ok (w, m') →
      LockRun word allowed m' holders (came ++ [m.threads.activeTid]) passed
  /-- the holder gives up a lock for which the host finds somebody -/
  | passes {m m' : Machine M} {holders came passed : List UInt32} {w : UInt64} {tid : UInt32}
      {more : Bool} :
      LockRun word allowed m holders came passed → allowed m.threads .unlock →
      m.threads.activeTid ∈ holders → (m.threads.unparkOne addr).1 = some (tid, more) →
      m.futexUnlockPi addr = .ok (w, m') →
      LockRun word allowed m' (tid :: holders.erase m.threads.activeTid) came (passed ++ [tid])
  /-- the holder gives up a lock for which the host finds nobody -/
  | unlocks {m m' : Machine M} {holders came passed : List UInt32} {w : UInt64} :
      LockRun word allowed m holders came passed → allowed m.threads .unlock →
      m.threads.activeTid ∈ holders → (m.threads.unparkOne addr).1 = none →
      m.futexUnlockPi addr = .ok (w, m') →
      LockRun word allowed m' (holders.erase m.threads.activeTid) came passed
  | other {m m' : Machine M} {holders came passed : List UInt32} {reply : Reply} (op : ThreadOp) :
      LockRun word allowed m holders came passed → allowed m.threads (.other op) → op.Lives →
      ¬ op.At m.threads addr → op.run m = .ok (reply, m') → word.ok m'.memory →
      m'.word addr = m.word addr → LockRun word allowed m' holders came passed
  | guest {m : Machine M} {holders came passed : List UInt32} (memory : M) (context : Context) :
      LockRun word allowed m holders came passed → allowed m.threads .guest → word.ok memory →
      (read32 memory addr).1 = m.word addr →
      LockRun word allowed { m with memory, context } holders came passed

/-- A fair lock: one thread holds it at most, the word tells which and whether others wait, and
it has been passed to those who came in the order they came. -/
structure Machine.FairLock {M : Type} [GuestMemory M] (m : Machine M) (addr : UInt64)
    (holders came passed : List UInt32) : Prop where
  one : holders.length ≤ 1
  holder : m.word addr &&& lockIds = holders.headD 0
  waiters : m.word addr &&& futexWaiters ≠ 0 ↔ m.threads.waiters addr ≠ []
  free : m.word addr = 0 → m.threads.waiters addr = []
  order : came = passed ++ m.threads.waiters addr

/-- The word of a lock with these holders and this queue. -/
inductive Holds : (word : UInt32) → (holders queue : List UInt32) → Prop where
  | free : Holds 0 [] []
  | held {x : UInt32} : x ≠ 0 → x < 0x80000000 → Holds x [x] []
  | waited {x y : UInt32} {rest : List UInt32} : x ≠ 0 → x < 0x80000000 →
      Holds (x ||| Machine.futexWaiters) [x] (y :: rest)

/-- What is known along a run. -/
structure LockRun.Known {M : Type} [GuestMemory M] {addr : UInt64} (word : Word M addr)
    (m : Machine M) (holders came passed : List UInt32) : Prop where
  good : m.threads.Good
  ok : word.ok m.memory
  untimed : m.threads.Untimed addr
  /-- those in line have ids that fit the word -/
  ids : ∀ x ∈ m.threads.waiters addr, x ≠ 0 ∧ x < 0x80000000
  holds : Holds (m.word addr) holders (m.threads.waiters addr)
  order : came = passed ++ m.threads.waiters addr

section Holds

variable {w : UInt32} {holders queue : List UInt32}

theorem or_waiters_ne (x : UInt32) : x ||| Machine.futexWaiters ≠ 0 := by
  intro zero
  have bits := or_waiters_and_waiters x
  rw [zero] at bits
  exact absurd bits (by decide)

namespace Holds

section

variable (holds : Holds w holders queue)
include holds

theorem of_zero (zero : w = 0) : holders = [] ∧ queue = [] := by
  cases holds with
  | free => exact ⟨rfl, rfl⟩
  | held some_ => exact absurd zero some_
  | waited => exact absurd zero (or_waiters_ne _)

theorem of_id {x : UInt32} (some_ : x ≠ 0) (below : x < 0x80000000) (same : w = x) :
    holders = [x] ∧ queue = [] := by
  cases holds with
  | free => exact absurd same.symm some_
  | held => exact ⟨by rw [same], rfl⟩
  | waited =>
    have bits := id_and_waiters below
    rw [← same, or_waiters_and_waiters] at bits
    exact absurd bits (by decide)

/-- One more in line. -/
theorem join (held : w ≠ 0) (x : UInt32) :
    Holds (w ||| Machine.futexWaiters) holders (queue ++ [x]) := by
  cases holds with
  | free => exact absurd rfl held
  | held some_ below => exact .waited some_ below
  | waited some_ below =>
    rw [UInt32.or_assoc, UInt32.or_self]
    exact .waited some_ below

end

/-- The word that is written when a lock is passed on. -/
theorem pass {tid : UInt32} (some_ : tid ≠ 0) (below : tid < 0x80000000) (rest : List UInt32) :
    Holds (if !rest.isEmpty then tid ||| Machine.futexWaiters else tid) [tid] rest := by
  cases rest with
  | nil => exact .held some_ below
  | cons y rest => exact .waited some_ below

/-- Whoever holds a lock is the only one. -/
theorem of_mem {x : UInt32} (holds : Holds w holders queue) (member : x ∈ holders) :
    holders = [x] := by
  cases holds with
  | free => cases member
  | held => rw [List.mem_singleton.mp member]
  | waited => rw [List.mem_singleton.mp member]

end Holds

end Holds

section Runs

variable {M : Type} [GuestMemory M] {addr : UInt64} {word : Word M addr} {m m' : Machine M}
variable {holders came passed : List UInt32} {w : UInt64}

theorem LockRun.Known.fair (known : Known word m holders came passed) :
    m.FairLock addr holders came passed := by
  obtain ⟨-, -, -, -, holds, order⟩ := known
  refine ⟨?_, ?_, ?_, fun zero => (holds.of_zero zero).2, order⟩
  all_goals generalize m.word addr = v, m.threads.waiters addr = queue at holds
  · cases holds with
    | free => decide
    | held => exact Nat.le_refl 1
    | waited => exact Nat.le_refl 1
  · cases holds with
    | free => rfl
    | held _ below => exact id_and_lockIds below
    | waited _ below => exact id_or_waiters_and_lockIds below
  · cases holds with
    | free => decide
    | held _ below => simp [id_and_waiters below]
    | waited =>
      rw [or_waiters_and_waiters]
      exact iff_of_true (by decide) (by simp)

theorem Threads.Good.active_ne_zero {t : Threads} (good : t.Good) : t.activeTid ≠ 0 := by
  obtain ⟨rows, sound, r, member, here, -⟩ := good
  rw [← here]
  exact (sound.ids r member).1

namespace LockRun.Known

section

variable (known : Known word m holders came passed)
include known

/-- A step that leaves the threads where they are. -/
theorem write {memory : M} {v : UInt32} {holders' : List UInt32} (ok : word.ok memory)
    (said : (read32 memory addr).1 = v) (holds : Holds v holders' (m.threads.waiters addr)) :
    Known word { m with memory } holders' came passed := by
  refine ⟨known.good, ok, known.untimed, known.ids, ?_, known.order⟩
  rw [Machine.word, said]
  exact holds

theorem taken (below : m.threads.activeTid < 0x80000000) (free : m.word addr = 0) {memory : M}
    (ok : word.ok memory) (said : (read32 memory addr).1 = m.threads.activeTid) :
    Known word { m with memory } (m.threads.activeTid :: holders) came passed := by
  obtain ⟨none_, empty⟩ := known.holds.of_zero free
  refine known.write ok said ?_
  rw [none_, empty]
  exact .held known.good.active_ne_zero below

theorem dropped (below : m.threads.activeTid < 0x80000000) (own : m.word addr = m.threads.activeTid)
    :
    Known word { m with memory := write32 m.memory addr 0 } (holders.erase m.threads.activeTid)
      came passed := by
  obtain ⟨held, empty⟩ := known.holds.of_id known.good.active_ne_zero below own
  refine known.write (word.write_ok 0 known.ok) (word.read_write 0 known.ok) ?_
  rw [held, empty, List.erase_cons_head]
  exact .free

theorem locked (below : m.threads.activeTid < 0x80000000) (free : m.word addr = 0)
    (ran : m.futexLockPi addr = .ok (w, m')) :
    Known word m' (m.threads.activeTid :: holders) came passed := by
  unfold Machine.futexLockPi at ran
  dsimp only at ran
  rw [if_pos (show (read32 m.memory addr).1 = 0 from free)] at ran
  cases ran
  have ok := word.read_ok known.ok
  exact known.taken below free (word.write_ok _ ok) (word.read_write _ ok)

end

theorem queued (known : Known word m holders came passed)
    (below : m.threads.activeTid < 0x80000000) (held : m.word addr ≠ 0)
    (ran : m.futexLockPi addr = .ok (w, m')) :
    Known word m' holders (came ++ [m.threads.activeTid]) passed := by
  obtain ⟨rows, sound, r, member, here, can⟩ := known.good
  have ok := word.read_ok (word.read_ok known.ok)
  have parked := sound.park member can addr
  rw [here] at parked
  have line : (m.threads.park addr m.threads.activeTid).waiters addr =
      m.threads.waiters addr ++ [m.threads.activeTid] := by
    show Queues.queued (m.threads.futicies.extend addr [m.threads.activeTid]) addr = _
    rw [Queues.queued_extend, if_pos rfl]
    rfl
  have untimed : (m.threads.park addr m.threads.activeTid).Untimed addr := by
    intro q among queued
    rcases mem_map_on.mp (parked.mem_rows.mp among) with ⟨p, -, -, rfl⟩ | ⟨inside, other⟩
    · rfl
    · rw [line, List.mem_append] at queued
      refine known.untimed q (sound.mem_rows.mpr inside) (queued.resolve_right fun last => ?_)
      exact other (List.mem_singleton.mp last)
  unfold Machine.futexLockPi at ran
  dsimp only at ran
  rw [if_neg (show (read32 m.memory addr).1 ≠ 0 from held)] at ran
  have memory := Machine.memory_of_switched ran
  obtain ⟨c, next⟩ := Machine.switched_eq ran
  have stands := parked.switch_stands untimed next
  have queue := stands.waiters.trans line
  have said : m'.word addr = m.word addr ||| Machine.futexWaiters := by
    rw [Machine.word, memory, word.read_write _ ok, word.read_read known.ok]
    rfl
  refine ⟨stands.good, ?_, stands.untimed, ?_, ?_, ?_⟩
  · rw [memory]
    exact word.write_ok _ ok
  · intro x there
    rw [queue, List.mem_append] at there
    rcases there with before | last
    · exact known.ids x before
    · rw [List.mem_singleton.mp last]
      exact ⟨known.good.active_ne_zero, below⟩
  · rw [said, queue]
    exact known.holds.join held _
  · rw [queue, known.order, List.append_assoc]

theorem passed_on (known : Known word m holders came passed)
    (own : m.threads.activeTid ∈ holders) {tid : UInt32} {more : Bool}
    (woke : (m.threads.unparkOne addr).1 = some (tid, more))
    (ran : m.futexUnlockPi addr = .ok (w, m')) :
    Known word m' (tid :: holders.erase m.threads.activeTid) came (passed ++ [tid]) := by
  obtain ⟨rows, sound, runs⟩ := known.good
  unfold Machine.futexUnlockPi at ran
  rcases sound.unparkOne addr with ⟨-, none_⟩ | ⟨first, rest, head, answer⟩
  · rw [none_] at woke
    cases woke
  · rw [answer] at woke ran
    cases woke
    have memory := Machine.memory_of_switched ran
    obtain ⟨c, next⟩ := Machine.switched_eq ran
    have here : tid ∈ m.threads.waiters addr := by simp [head]
    have woken := sound.wake head
    have line := sound.wake_waiters head addr
    rw [if_pos rfl] at line
    have quiet : Threads.Untimed { m.threads.wake tid with
        futicies := m.threads.futicies.put addr rest } addr := by
      intro q among queued
      rcases mem_map_on.mp (woken.mem_rows.mp among) with ⟨p, -, -, rfl⟩ | ⟨inside, other⟩
      · rfl
      · rw [line] at queued
        refine known.untimed q (sound.mem_rows.mpr inside) ?_
        rw [head]
        exact List.mem_cons_of_mem _ queued
    obtain ⟨-, r, member, rfl, -⟩ := (sound.holds.mem tid).mp ⟨addr, here⟩
    have stands := woken.swapTo_stands quiet
      ⟨_, mem_map_on.mpr (.inl ⟨r, member, rfl, rfl⟩), rfl, rfl⟩ next
    have queue := stands.waiters.trans line
    obtain ⟨some_, below⟩ := known.ids r.tid here
    refine ⟨stands.good, ?_, stands.untimed, ?_, ?_, ?_⟩
    · rw [memory]
      exact word.write_ok _ known.ok
    · intro x there
      rw [queue] at there
      refine known.ids x ?_
      rw [head]
      exact List.mem_cons_of_mem _ there
    · rw [Machine.word, memory, word.read_write _ known.ok, queue, known.holds.of_mem own,
        List.erase_cons_head]
      exact Holds.pass some_ below rest
    · rw [queue, known.order, head, List.append_assoc]
      rfl

theorem unlocked (known : Known word m holders came passed)
    (own : m.threads.activeTid ∈ holders) (alone : (m.threads.unparkOne addr).1 = none)
    (ran : m.futexUnlockPi addr = .ok (w, m')) :
    Known word m' (holders.erase m.threads.activeTid) came passed := by
  obtain ⟨rows, sound, runs⟩ := known.good
  unfold Machine.futexUnlockPi at ran
  rcases sound.unparkOne addr with ⟨empty, none_⟩ | ⟨tid, rest, head, answer⟩
  · rw [none_] at ran
    cases ran
    refine known.write (word.write_ok 0 known.ok) (word.read_write 0 known.ok) ?_
    rw [empty, known.holds.of_mem own, List.erase_cons_head]
    exact .free
  · rw [answer] at alone
    cases alone

end LockRun.Known

/-- The lock is in order along every run. -/
theorem LockRun.known (run : LockRun word (fun t step => step.Fits t) m holders came passed) :
    Known word m holders came passed := by
  induction run with
  | start good empty ok zero =>
    refine ⟨good, ok, fun r _ queued => ?_, fun x queued => ?_, ?_, empty.symm⟩
    · rw [empty] at queued
      cases queued
    · rw [empty] at queued
      cases queued
    · rw [zero, empty]
      exact .free
  | take _ below free known =>
    exact known.taken below free (word.write_ok _ known.ok) (word.read_write _ known.ok)
  | drop _ below own known => exact known.dropped below own
  | locks _ below free ran known => exact known.locked below free ran
  | queues _ below held ran known => exact known.queued below held ran
  | passes _ _ own woke ran known => exact known.passed_on own woke ran
  | unlocks _ _ own alone ran known => exact known.unlocked own alone ran
  | other op _ fits lives off ran ok same known =>
    have stands := ThreadOp.stands known.good lives fits off known.untimed ran
    refine ⟨stands.good, ok, stands.untimed, ?_, ?_, ?_⟩
    · rw [stands.waiters]
      exact known.ids
    · rw [same, stands.waiters]
      exact known.holds
    · rw [stands.waiters]
      exact known.order
  | guest memory context _ _ ok same known =>
    obtain ⟨good, ok, untimed, ids, holds, order⟩ := known.write ok same known.holds
    exact ⟨good, ok, untimed, ids, holds, order⟩

/-- In every run, and at every moment of it, a lock is fair. -/
theorem LockRun.fairLock (run : LockRun word (fun t step => step.Fits t) m holders came passed) :
    m.FairLock addr holders came passed :=
  run.known.fair

end Runs

/-! ## A memory of one word -/

/-- A memory in which every address has the same word. -/
structure Cell where
  word : UInt32

instance : GuestMemory Cell where
  read32 m _ := (m.word, m)
  read64 m _ := (0, m)
  write32 _ _ v := ⟨v⟩
  write64 m _ _ := m
  protectStack m _ := (.ok (), m)

def Cell.plain (addr : UInt64) : Word Cell addr where
  ok := fun _ => True
  read_ok := fun _ => trivial
  read_read := fun _ => rfl
  write_ok := fun _ _ => trivial
  read_write := fun _ _ => rfl

/-- The main thread takes a lock, a second one comes to its queue, and the lock is passed to it. -/
theorem LockRun.fair_passed : ∃ m, LockRun (Cell.plain 64) (fun t step => step.Fits t) m [2] [2]
    [2] ∧
    m.word 64 = 2 ∧ m.FairLock 64 [2] [2] [2] := by
  have threads : ThreadRun Zeros (fun t op => op.Fits t) _ _ _ := .new 3 2
  obtain ⟨since, threads⟩ := threads.step .start trivial (show (2 : UInt32) ≠ 0 by decide) rfl
  have run : LockRun (Cell.plain 64) (fun t step => step.Fits t) ⟨_, .zero, ⟨0⟩⟩ _ _ _ :=
    .start threads.inOrder.good rfl trivial rfl
  have run := run.take (show (1 : UInt32) < 0x80000000 by decide) rfl
  have run := run.other (.yieldValue 0) trivial trivial id rfl trivial rfl
  have run := run.queues (show (2 : UInt32) < 0x80000000 by decide)
      (show (1 : UInt32) ≠ 0 by decide) rfl
  have run := run.passes trivial (List.mem_singleton.mpr rfl) rfl rfl
  exact ⟨_, run, rfl, fairLock run⟩

/-- When half the ids have been given out, a thread takes a lock: the word says that others
wait, and nobody does. -/
theorem LockRun.unfair : ∃ m, (∃ since now, ThreadRun Zeros
    (fun t op => op.Fits t) m.threads since now) ∧
    LockRun (Cell.plain 64) (fun _ _ => True) m [0x80000000] [] [] ∧
      m.word 64 &&& Machine.futexWaiters ≠ 0 ∧ m.threads.waiters 64 = [] ∧
      ¬ m.FairLock 64 [0x80000000] [] [] := by
  obtain ⟨since, now, threads⟩ : ∃ since now, ThreadRun Zeros (fun t op => op.Fits t) _ since now :=
    ThreadRun.lone (fun _ _ fits => fits) 3 2 (2 ^ 31 - 2) (by decide)
  obtain ⟨since, threads⟩ := threads.step .start trivial
    (show (0x80000000 : UInt32) ≠ 0 by decide) rfl
  obtain ⟨since, threads⟩ := threads.step (.yieldValue 0) trivial trivial rfl
  have run : LockRun (Cell.plain 64) (fun _ _ => True) ⟨_, .zero, ⟨0⟩⟩ _ _ _ :=
    .start threads.inOrder.good rfl trivial rfl
  have run := run.take trivial rfl
  refine ⟨_, ⟨_, _, threads⟩, run, by decide, rfl, fun fair => ?_⟩
  exact absurd rfl (fair.waiters.mp (by decide))

end MiniBox

