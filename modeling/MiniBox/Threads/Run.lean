import MiniBox.Threads.Stream

/-!
# Runs of the thread set

A run is any sequence of operations, with any memory and any registers at each of them,
saves, and loads of sets that were saved in runs.  Every set of a run is well formed, as
long as no thread is started after the ids have all been given out, and a wake takes the
ones that have waited on its address longest.

How long a thread has waited is told along the run: it came to its address at the last
operation that found it elsewhere.  A loaded set has the history of the set that was saved.
-/

namespace MiniBox

open Lib

/-! ## Operations -/

inductive ThreadOp where
  | spawn (threadArea guestRsp guestRip childTid parentTid pthreadArea : UInt64)
  | exit
  | yieldValue (ret : UInt64)
  | schedYield
  | futexWait (addr : UInt64) (compare : UInt32)
  | futexWaitTimeout (addr : UInt64) (compare : UInt32) (hasDeadline : Bool) (deadline : UInt64)
  | futexWake (addr : UInt64) (count : UInt32)
  | futexRequeue (source target : UInt64) (wake requeue : UInt32)
  | futexLockPi (addr : UInt64)
  | futexUnlockPi (addr : UInt64)
  | advance (ns : UInt64)
  | setTidAddress (addr : UInt64)
  | holdStackUnmap (r : Range)
  | takeHeldUnmap
  | save
  | load (stream : Bytes)

inductive Reply where
  | nothing
  | word (w : UInt64)
  | count (n : Nat)
  | spawned (r : Except Errno UInt32)
  | held (taken : Bool)
  | unmap (r : Option Range)
  | stream (bytes : Option Bytes)

section Operations

variable {M : Type}

def answer (r : Answer M UInt64) : Answer M Reply :=
  match r with
  | .error e => .error e
  | .ok (w, m) => .ok (.word w, m)

variable [GuestMemory M]

def ThreadOp.run : ThreadOp → Machine M → Answer M Reply
  | .spawn threadArea guestRsp guestRip childTid parentTid pthreadArea, m =>
    let (r, m) := m.spawn threadArea guestRsp guestRip childTid parentTid pthreadArea
    .ok (.spawned r, m)
  | .exit, m => answer m.exit
  | .yieldValue ret, m => answer (m.yieldValue ret)
  | .schedYield, m => answer m.schedYield
  | .futexWait addr compare, m => answer (m.futexWait addr compare)
  | .futexWaitTimeout addr compare hasDeadline deadline, m =>
    answer (m.futexWaitTimeout addr compare hasDeadline deadline)
  | .futexWake addr count, m =>
    let (n, threads) := m.threads.futexWake addr count
    .ok (.count n, { m with threads })
  | .futexRequeue source target wake requeue, m =>
    let (n, threads) := m.threads.futexRequeue source target wake requeue
    .ok (.count n, { m with threads })
  | .futexLockPi addr, m => answer (m.futexLockPi addr)
  | .futexUnlockPi addr, m => answer (m.futexUnlockPi addr)
  | .advance ns, m => .ok (.nothing, { m with threads := m.threads.advance ns })
  | .setTidAddress addr, m => answer (m.setTidAddress addr)
  | .holdStackUnmap r, m =>
    let (taken, threads) := m.threads.holdStackUnmap r
    .ok (.held taken, { m with threads })
  | .takeHeldUnmap, m =>
    let (r, threads) := m.threads.takeHeldUnmap
    .ok (.unmap r, { m with threads })
  | .save, m =>
    let (bytes, threads) := m.threads.save m.context
    .ok (.stream bytes, { m with threads })
  | .load stream, m =>
    let (rest, threads, context) := m.threads.load m.context stream
    .ok (.stream rest, { m with threads, context })

end Operations

/-! ## One operation -/

section Steps

variable {M : Type} {m m' : Machine M} {t : Threads} {rows : List Row} {w : UInt64}

theorem Threads.Good.leads (good : t.Good) : t.Leads t := ⟨good, fun _ => .refl _⟩

theorem Machine.switched_eq {memory : M} {r : Except Death (UInt64 × Threads × Context)}
    (ran : switched memory r = .ok (w, m')) :
    ∃ c, r = .ok (w, m'.threads, c) := by
  unfold switched at ran
  split at ran
  · cases ran
  · cases ran
    exact ⟨_, rfl⟩

theorem Machine.memory_of_switched {memory : M} {r : Except Death (UInt64 × Threads × Context)}
    (ran : switched memory r = .ok (w, m')) : m'.memory = memory := by
  unfold switched at ran
  split at ran
  · cases ran
  · cases ran
    rfl

namespace Threads

theorem Sound.advance_behind (sound : t.Sound rows none) (ns : UInt64) (a : UInt64) :
    Behind (t.waiters a) ((t.advance ns).waiters a) := by
  have moved : Threads.Sound { t with vclockNs := t.nsAdd t.vclockNs ns } rows none :=
    sound.same rfl rfl rfl rfl rfl rfl
  obtain ⟨keep, queue⟩ := moved.expireDue_waiters a
  show Behind (t.waiters a) ((Threads.expireDue _).waiters a)
  rw [queue]
  exact (Behind.refl (t.waiters a)).filter keep

/-- The active thread behind the others at an address. -/
theorem Sound.extend_behind (sound : t.Sound rows none) (runs : t.Runs rows)
    (addr a : UInt64) :
    Behind (t.waiters a) (Queues.queued (t.futicies.extend addr [t.activeTid]) a) := by
  rw [Queues.queued_extend]
  split
  · refine Behind.append fun tid member => ?_
    rw [List.mem_singleton.mp member]
    exact fun inside => sound.not_active runs inside rfl
  · exact .refl _

/-- A change to the active thread's row that leaves its state alone. -/
theorem Good.touch (good : t.Good) {g : GThread → GThread} (tid : UInt32)
    (id_ : ∀ x, (g x).tid = x.tid) (state : ∀ x, (g x).state = x.state) :
    t.Leads (t.onThread tid g) := by
  obtain ⟨rows, sound, r, member, here, runs⟩ := good
  refine ⟨⟨_, sound.touch tid id_ state, ?_⟩, fun _ => .refl _⟩
  refine ⟨_, List.mem_map_of_mem member, ?_⟩
  unfold Row.on
  split
  · exact ⟨(id_ r.thread).trans here, (state r.thread).trans runs⟩
  · exact ⟨here, runs⟩

theorem Sound.advance_active (sound : t.Sound rows none) (ns : UInt64) :
    (t.advance ns).activeTid = t.activeTid := by
  have moved : Lists { t with vclockNs := t.nsAdd t.vclockNs ns } rows :=
    ⟨sound.lists.threads, sound.lists.deadlines, sound.lists.seqs⟩
  show (Threads.expireDue _).activeTid = _
  rw [moved.expireDue.rest]

theorem Good.advance (good : t.Good) (ns : UInt64) : t.Leads (t.advance ns) := by
  obtain ⟨rows, sound, r, member, here, runs⟩ := good
  have early : r.due (t.nsAdd t.vclockNs ns) = false := by simp [Row.due, due, runs]
  have same : r.expire (t.nsAdd t.vclockNs ns) = r := by simp [Row.expire, early]
  refine ⟨⟨_, sound.advance ns, r, ?_, here.trans (sound.advance_active ns).symm, runs⟩,
    sound.advance_behind ns⟩
  exact List.mem_map.mpr ⟨r, member, same⟩

theorem Good.requeue (good : t.Good) {source target : UInt64} {wake requeue : UInt32}
    (apart : source ≠ target ∨ requeue = 0) :
    t.Leads (t.futexRequeue source target wake requeue).2 := by
  have moved : Requeued source target (wake.toNat + requeue.toNat) wake.toNat t
      (t.futexRequeue source target wake requeue).1 (t.futexRequeue source target wake requeue).2 :=
    Sound.requeueLoop good (apart.imp_right fun none_ => by simp [none_])
  refine ⟨moved.good, fun a => ?_⟩
  obtain ⟨rows, sound, -⟩ := good
  rw [moved.waiters]
  split
  · exact Behind.drop (sound.holds.nodup a) _
  · rename_i other
    split
    · refine Behind.append fun tid member inside => other ?_
      have there : tid ∈ t.waiters source := List.mem_of_mem_take (List.mem_of_mem_drop member)
      exact sound.holds.single inside there
    · exact .refl _

theorem Good.unlock (good : t.Good) {addr : UInt64} {tid : UInt32} {more : Bool}
    {s t' : Threads} {c c' : Context} {ret : UInt64}
    (woke : t.unparkOne addr = (some (tid, more), s))
    (ran : s.swapTo c tid ret = .ok (w, t', c')) : t.Leads t' := by
  obtain ⟨rows, sound, -⟩ := good
  rcases sound.unparkOne addr with ⟨-, none_⟩ | ⟨tid', rest, head, answer⟩
  · rw [none_] at woke
    cases woke
  · rw [answer] at woke
    cases woke
    have here : tid ∈ t.waiters addr := by simp [head]
    obtain ⟨-, r, member, rfl, -⟩ := (sound.holds.mem tid).mp ⟨addr, here⟩
    obtain ⟨kept, queues⟩ := (sound.wake head).swapTo
      ⟨_, mem_map_on.mpr (.inl ⟨r, member, rfl, rfl⟩), rfl, rfl⟩ ran
    refine ⟨kept, fun a => ?_⟩
    rw [queues]
    exact sound.wake_behind head a

end Threads

/-- A timed wait parked, with its deadline. -/
theorem Machine.parkUntil_sound (sound : t.Sound rows none) (runs : t.Runs rows)
    (at_ : m.threads = t)
    (v3 : t.spec = 3) (addr deadline : UInt64) :
    (m.parkUntil addr deadline).threads.Sound
      (rows.map (Row.on t.activeTid (Row.marked .waiting deadline (t.parkSeq + 1)))) none := by
  subst at_
  obtain ⟨r, member, here, can⟩ := runs
  have lists := sound.lists.onMarked sound.sorted r.tid .waiting deadline (m.threads.parkSeq + 1)
  rw [← here]
  refine sound.parkMarked member can addr deadline (m.threads.parkSeq + 1) (.inr v3) ?_ rfl rfl ?_
  · rw [here] at lists ⊢
    exact ⟨lists.threads, lists.deadlines, lists.seqs⟩
  · rw [here]
    rfl

variable [GuestMemory M]

/-- The set while a thread is on its way out. -/
theorem Machine.leave_sound (good : m.threads.Good) (self : GThread) :
    (m.leave self).threads.activeTid = m.threads.activeTid ∧
      (∃ rows, (m.leave self).threads.Sound rows (some m.threads.activeTid)) ∧
      ∀ a, Behind (m.threads.waiters a) ((m.leave self).threads.waiters a) := by
  obtain ⟨rows, sound, r, member, here, runs⟩ := good
  unfold leave
  split
  · refine ⟨rfl, ⟨_, here ▸ sound.leaves member runs⟩, fun _ => .refl _⟩
  · rcases sound.unparkOne self.tidAddress with ⟨-, none_⟩ | ⟨tid, rest, head, answer⟩
    · rw [none_]
      exact ⟨rfl, ⟨_, here ▸ sound.leaves member runs⟩, fun _ => .refl _⟩
    · rw [answer]
      have waits : tid ∈ m.threads.waiters self.tidAddress := by simp [head]
      have other := sound.not_active ⟨r, member, here, runs⟩ waits
      have still : r ∈ rows.map (Row.on tid (Row.marked .runnable 0 0)) :=
        mem_map_on.mpr (.inr ⟨member, fun same => other (same.symm.trans here)⟩)
      refine ⟨rfl, ⟨_, here ▸ (sound.wake head).leaves still runs⟩, fun a => ?_⟩
      exact sound.wake_behind head a

/-- What the sequences spoken of here leave out: a requeue from an address to itself.  Loads
are told apart by what they load. -/
def ThreadOp.Plain : ThreadOp → Prop
  | .futexRequeue source target _ _ => source ≠ target
  | .load _ => False
  | _ => True

/-- There is an id left for a thread that is started. -/
def ThreadOp.Fits (t : Threads) : ThreadOp → Prop
  | .spawn .. => t.nextTid ≠ 0
  | _ => True

omit [GuestMemory M] in
theorem answer_word {r : Answer M UInt64} {reply : Reply}
    (ran : answer r = .ok (reply, m')) : ∃ w, reply = .word w ∧ r = .ok (w, m') := by
  unfold answer at ran
  split at ran
  · cases ran
  · cases ran
    exact ⟨_, rfl, rfl⟩

namespace Threads

/-- A set in which at most the active thread's row has changed, its id and its state as they
were. -/
inductive Touched (t : Threads) : Threads → Prop where
  | same : Touched t t
  | row {g : GThread → GThread} : (∀ y, (g y).tid = y.tid) → (∀ y, (g y).state = y.state) →
      Touched t (t.onThread t.activeTid g)

theorem Touched.leads {t' : Threads} (touched : t.Touched t') (good : t.Good) : t.Leads t' := by
  cases touched with
  | same => exact good.leads
  | row id_ state => exact good.touch _ id_ state

theorem holdStackUnmap_touched (t : Threads) (r : Range) : t.Touched (t.holdStackUnmap r).2 := by
  unfold holdStackUnmap
  split
  · exact .same
  · split
    · exact .same
    · split
      · exact .same
      · exact .row (fun _ => rfl) (fun _ => rfl)

theorem takeHeldUnmap_touched (t : Threads) : t.Touched t.takeHeldUnmap.2 := by
  unfold takeHeldUnmap
  split
  · exact .same
  · split
    · exact .same
    · exact .row (fun _ => rfl) (fun _ => rfl)

theorem save_touched (t : Threads) (c : Context) : t.Touched (t.save c).2 := by
  unfold save
  split
  · exact .same
  · rename_i main
    rw [settle, ← not_not.mp main]
    exact .row (fun _ => rfl) (fun _ => rfl)

end Threads

/-! ### What an operation does to the set -/

namespace ThreadOp

/-- Where an operation makes the active thread wait. -/
def ParksAt (addr : UInt64) : ThreadOp → Prop
  | .futexWait a _ => a = addr
  | .futexWaitTimeout a _ _ _ => a = addr
  | .futexLockPi a => a = addr
  | _ => False

/-- The set an operation switches from: as it was, a tick later, or with the active thread
waiting. -/
inductive Readies (m : Machine M) (op : ThreadOp) : Threads → Prop where
  | same : Readies m op m.threads
  | ticked : Readies m op (m.threads.advance Threads.tickNs)
  | parked {addr : UInt64} : op.ParksAt addr →
      Readies m op (m.threads.park addr m.threads.activeTid)
  | timed {addr : UInt64} (deadline : UInt64) : op.ParksAt addr → m.threads.spec = 3 →
      Readies m op (m.parkUntil addr deadline).threads

/-- What an operation does to the set. -/
inductive Way (m : Machine M) : ThreadOp → Reply → Threads → Prop where
  | touched {op : ThreadOp} {reply : Reply} {t : Threads} : m.threads.Touched t → Way m op reply t
  | spawned {a b c d e f : UInt64} {reply : Reply} {g : GThread} : g.state = .runnable →
      g.tid = m.threads.nextTid → Way m (.spawn a b c d e f) reply
        { m.threads.insertThread g with nextTid := m.threads.nextTid + 1 }
  | advanced {op : ThreadOp} {reply : Reply} (ns : UInt64) : Way m op reply (m.threads.advance ns)
  | switched {op : ThreadOp} {s t : Threads} {c c' : Context} {ret w : UInt64} : op.Readies m s →
      s.swapToNext c ret = .ok (w, t, c') → Way m op (.word w) t
  | passed {addr : UInt64} {tid : UInt32} {more : Bool} {s t : Threads} {c c' : Context}
      {ret w : UInt64} : m.threads.unparkOne addr = (some (tid, more), s) →
      s.swapTo c tid ret = .ok (w, t, c') → Way m (.futexUnlockPi addr) (.word w) t
  | left {self : GThread} {t : Threads} {c c' : Context} {ret w : UInt64} :
      m.threads.findThread m.threads.activeTid = some self →
      (m.leave self).threads.swapToNext c ret = .ok (w, t, c') →
      t.activeTid ≠ m.threads.activeTid →
      Way m .exit (.word w) (t.removeThread m.threads.activeTid)
  | woke {addr : UInt64} {count : UInt32} {reply : Reply} :
      Way m (.futexWake addr count) reply (m.threads.futexWake addr count).2
  | requeued {source target : UInt64} {wake requeue : UInt32} {reply : Reply} :
      Way m (.futexRequeue source target wake requeue) reply
        (m.threads.futexRequeue source target wake requeue).2
  | loaded {stream : Bytes} {reply : Reply} {t : Threads} : Way m (.load stream) reply t

namespace Way

theorem next {op : ThreadOp} {s : Threads} {c : Context} {ret : UInt64} {memory : M}
    (readies : op.Readies m s) (ran : Machine.switched memory (s.swapToNext c ret) = .ok (w, m')) :
    op.Way m (.word w) m'.threads := by
  obtain ⟨_, next⟩ := Machine.switched_eq ran
  exact .switched readies next

theorem spawn {a b c d e f : UInt64} {reply : Reply} :
    Way m (.spawn a b c d e f) reply (m.spawn a b c d e f).2.threads := by
  unfold Machine.spawn
  dsimp only
  split
  · exact .touched .same
  · split
    · exact .touched .same
    · exact .spawned rfl rfl

theorem exit (ran : m.exit = .ok (w, m')) : Way m .exit (.word w) m'.threads := by
  unfold Machine.exit at ran
  split at ran
  · cases ran
  · split at ran
    · cases ran
    · split at ran
      · cases ran
      · rename_i self found _ _ s next
        split at ran
        · cases ran
        · rename_i gone
          cases ran
          obtain ⟨c, next⟩ := Machine.switched_eq next
          exact .left found next gone

theorem schedYield (ran : m.schedYield = .ok (w, m')) : Way m .schedYield (.word w) m'.threads := by
  unfold Machine.schedYield at ran
  dsimp only at ran
  split at ran
  · exact next .ticked ran
  · exact next .same ran

theorem futexWait {addr : UInt64} {compare : UInt32}
    (ran : m.futexWait addr compare = .ok (w, m')) :
    Way m (.futexWait addr compare) (.word w) m'.threads := by
  unfold Machine.futexWait at ran
  simp only at ran
  split at ran
  · cases ran
    exact .touched .same
  · exact next (.parked rfl) ran

theorem futexWaitTimeout {addr deadline : UInt64} {compare : UInt32} {hasDeadline : Bool}
    (ran : m.futexWaitTimeout addr compare hasDeadline deadline = .ok (w, m')) :
    Way m (.futexWaitTimeout addr compare hasDeadline deadline) (.word w) m'.threads := by
  unfold Machine.futexWaitTimeout at ran
  simp only at ran
  split at ran
  · cases ran
    exact .touched .same
  · split at ran
    · exact next (.parked rfl) ran
    · rename_i v3
      split at ran
      · split at ran
        · exact next .ticked ran
        · cases ran
          exact .advanced _
      · exact next (.timed deadline rfl (by simpa using (not_or.mp v3).1)) ran

theorem futexLockPi {addr : UInt64} (ran : m.futexLockPi addr = .ok (w, m')) :
    Way m (.futexLockPi addr) (.word w) m'.threads := by
  unfold Machine.futexLockPi at ran
  simp only at ran
  split at ran
  · cases ran
    exact .touched .same
  · exact next (.parked rfl) ran

theorem futexUnlockPi {addr : UInt64} (good : m.threads.Good)
    (ran : m.futexUnlockPi addr = .ok (w, m')) :
    Way m (.futexUnlockPi addr) (.word w) m'.threads := by
  unfold Machine.futexUnlockPi at ran
  split at ran
  · rename_i woke
    obtain ⟨c, next⟩ := Machine.switched_eq ran
    exact .passed woke next
  · rename_i s woke
    cases ran
    obtain ⟨rows, sound, -⟩ := good
    rcases sound.unparkOne addr with ⟨-, none_⟩ | ⟨tid, rest, head, answer⟩
    · rw [none_] at woke
      cases woke
      exact .touched .same
    · rw [answer] at woke
      cases woke

theorem setTidAddress {addr : UInt64} (ran : m.setTidAddress addr = .ok (w, m')) :
    Way m (.setTidAddress addr) (.word w) m'.threads := by
  unfold Machine.setTidAddress at ran
  dsimp only at ran
  split at ran
  · cases ran
  · cases ran
    exact .touched (.row (fun _ => rfl) fun _ => rfl)

end Way

theorem way {op : ThreadOp} {reply : Reply} (good : m.threads.Good)
    (ran : op.run m = .ok (reply, m')) : op.Way m reply m'.threads := by
  cases op with
  | spawn =>
    cases ran
    exact .spawn
  | exit =>
    obtain ⟨w, rfl, done⟩ := answer_word ran
    exact .exit done
  | yieldValue ret =>
    obtain ⟨w, rfl, done⟩ := answer_word ran
    exact .next .same done
  | schedYield =>
    obtain ⟨w, rfl, done⟩ := answer_word ran
    exact .schedYield done
  | futexWait addr compare =>
    obtain ⟨w, rfl, done⟩ := answer_word ran
    exact .futexWait done
  | futexWaitTimeout addr compare hasDeadline deadline =>
    obtain ⟨w, rfl, done⟩ := answer_word ran
    exact .futexWaitTimeout done
  | futexWake addr count =>
    cases ran
    exact .woke
  | futexRequeue source target wake requeue =>
    cases ran
    exact .requeued
  | futexLockPi addr =>
    obtain ⟨w, rfl, done⟩ := answer_word ran
    exact .futexLockPi done
  | futexUnlockPi addr =>
    obtain ⟨w, rfl, done⟩ := answer_word ran
    exact .futexUnlockPi good done
  | advance ns =>
    cases ran
    exact .advanced ns
  | setTidAddress addr =>
    obtain ⟨w, rfl, done⟩ := answer_word ran
    exact .setTidAddress done
  | holdStackUnmap r =>
    cases ran
    exact .touched (m.threads.holdStackUnmap_touched r)
  | takeHeldUnmap =>
    cases ran
    exact .touched m.threads.takeHeldUnmap_touched
  | save =>
    cases ran
    exact .touched (m.threads.save_touched m.context)
  | load stream => exact .loaded

end ThreadOp

omit [GuestMemory M] in
theorem ThreadOp.Readies.sound {op : ThreadOp} {s : Threads} (good : m.threads.Good)
    (readies : op.Readies m s) : (∃ rows, s.Sound rows none) ∧
      s.activeTid = m.threads.activeTid ∧ ∀ a, Behind (m.threads.waiters a) (s.waiters a) := by
  obtain ⟨rows, sound, runs⟩ := good
  cases readies with
  | same => exact ⟨⟨rows, sound⟩, rfl, fun _ => .refl _⟩
  | ticked => exact ⟨⟨_, sound.advance _⟩, sound.advance_active _, sound.advance_behind _⟩
  | @parked addr _ =>
    obtain ⟨r, member, here, can⟩ := id runs
    have parked := sound.park member can addr
    rw [here] at parked
    exact ⟨⟨_, parked⟩, rfl, sound.extend_behind runs addr⟩
  | @timed addr deadline _ v3 =>
    exact ⟨⟨_, Machine.parkUntil_sound sound runs rfl v3 addr deadline⟩, rfl,
      sound.extend_behind runs addr⟩

/-- Every operation leads from a good set to a good set. -/
theorem ThreadOp.leads {op : ThreadOp} {reply : Reply} (good : m.threads.Good) (plain : op.Plain)
    (fits : op.Fits m.threads) (ran : op.run m = .ok (reply, m')) : m.threads.Leads m'.threads := by
  have way := way good ran
  generalize m'.threads = t' at way ⊢
  cases way with
  | touched touched => exact touched.leads good
  | spawned runs next =>
    obtain ⟨rows, sound, r, member, here, can⟩ := good
    refine ⟨⟨_, sound.spawn runs next fits, r, ?_, here, can⟩, fun _ => .refl _⟩
    exact (mem_insert_place sound.sorted).mpr (.inr member)
  | advanced ns => exact good.advance ns
  | switched readies next =>
    obtain ⟨⟨rows, sound⟩, -, behind⟩ := readies.sound good
    exact sound.leads behind next
  | passed woke next => exact good.unlock woke next
  | @left self s _ _ _ _ found next gone =>
    obtain ⟨-, ⟨rows, sound⟩, behind⟩ := Machine.leave_sound good self
    obtain ⟨⟨rows', kept, r, member, here, runs⟩, queues⟩ := sound.swapToNext next
    refine ⟨⟨_, kept.remove, r, ?_, here, runs⟩, fun a => ?_⟩
    · rw [List.mem_filter]
      refine ⟨member, ?_⟩
      rw [here]
      simpa using gone
    · obtain ⟨keep, queue⟩ := queues a
      show Behind _ (s.waiters a)
      rw [queue]
      exact (behind a).filter keep
  | woke => exact good.requeue (.inr rfl)
  | requeued => exact good.requeue (.inl plain)
  | loaded => cases plain

end Steps

/-! ## Well-formed sets -/

/-- The set as it should be between two operations. -/
structure Threads.WellFormed (t : Threads) : Prop where
  ascending : t.threads.Pairwise fun g h => g.tid < h.tid
  /-- 0 is nobody's id: it stands for no owner in a lock's word -/
  nonzero : ∀ g ∈ t.threads, g.tid ≠ 0
  aligned : t.deadlines.length = t.threads.length ∧ t.seqs.length = t.threads.length
  /-- a thread that can run has no deadline and no mark -/
  unmarked : ∀ (i : Nat) (g : GThread), t.threads[i]? = some g → g.state = .runnable →
    t.deadlines[i]? = some 0 ∧ t.seqs[i]? = some 0
  /-- only a machine of spec 3 has deadlines -/
  untimed : t.spec ≠ 3 → ∀ d ∈ t.deadlines, d = 0
  active : ∃ g ∈ t.threads, g.tid = t.activeTid ∧ g.state = .runnable
  activeFree : ∀ q ∈ t.futicies, t.activeTid ∉ q.items
  /-- a thread that waits is in one queue, once -/
  parked : ∀ g ∈ t.threads, g.state = .waiting → (t.futicies.flatMap Queue.items).count g.tid = 1
  queued : ∀ q ∈ t.futicies, ∀ tid ∈ q.items, ∃ g ∈ t.threads, g.tid = tid ∧ g.state = .waiting
  filled : ∀ q ∈ t.futicies, q.items ≠ []
  distinct : t.futicies.Pairwise fun p q => p.key ≠ q.key

section WellFormed

variable {t u : Threads}

theorem Threads.Good.wellFormed (good : t.Good) : t.WellFormed := by
  obtain ⟨rows, sound, r, member, here, runs⟩ := id good
  have inside : ∀ {g}, g ∈ t.threads → ∃ s ∈ rows, s.thread = g := fun inside => by
    rw [sound.lists.threads] at inside
    exact List.mem_map.mp inside
  have at_ : ∀ q ∈ t.futicies, t.waiters q.key = q.items := fun q among =>
    Queues.queued_of_mem sound.holds.tidy.distinct among
  have waits : ∀ q ∈ t.futicies, ∀ tid ∈ q.items, Queued rows none tid := fun q among tid queued =>
    (sound.holds.mem tid).mp ⟨q.key, by rw [← at_ q among] at queued; exact queued⟩
  constructor
  · rw [sound.lists.threads, List.pairwise_map]
    exact sound.sorted
  · intro g among
    obtain ⟨s, row, rfl⟩ := inside among
    exact (sound.ids s row).1
  · exact ⟨sound.lists.deadlines_length, sound.lists.seqs_length⟩
  · intro i g found can
    rw [sound.lists.threads, List.getElem?_map] at found
    obtain ⟨s, row, rfl⟩ := Option.map_eq_some_iff.mp found
    obtain ⟨quiet, unmarked⟩ := sound.unmarked s (List.mem_of_getElem? row) can
    rw [sound.lists.deadlines, sound.lists.seqs, List.getElem?_map, List.getElem?_map, row]
    exact ⟨congrArg some quiet, congrArg some unmarked⟩
  · intro v2 d among
    rw [sound.lists.deadlines] at among
    obtain ⟨s, row, rfl⟩ := List.mem_map.mp among
    exact sound.untimed v2 s row
  · refine ⟨r.thread, ?_, here, runs⟩
    rw [sound.lists.threads]
    exact List.mem_map_of_mem member
  · intro q among queued
    rw [← at_ q among] at queued
    exact sound.not_active ⟨r, member, here, runs⟩ queued rfl
  · intro g among waiting
    obtain ⟨s, row, rfl⟩ := inside among
    obtain ⟨a, queued⟩ := (sound.holds.mem s.tid).mpr ⟨by simp, s, row, rfl, waiting⟩
    obtain ⟨q, among, -, items⟩ := Queues.exists_of_mem_queued queued
    rw [← items] at queued
    exact List.count_eq_one_of_mem sound.holds.flatMap_nodup
      (List.mem_flatMap.mpr ⟨q, among, queued⟩)
  · intro q among tid queued
    obtain ⟨-, s, row, id_, waiting⟩ := waits q among tid queued
    refine ⟨s.thread, ?_, id_, waiting⟩
    rw [sound.lists.threads]
    exact List.mem_map_of_mem row
  · exact sound.holds.tidy.filled
  · have distinct := sound.holds.tidy.distinct
    rw [Queues.keys, List.nodup_iff_pairwise_ne, List.pairwise_map] at distinct
    exact distinct

/-- Ids that are not 0 are fewer than the words there are. -/
theorem ids_length_lt {ids : List UInt32} (distinct : ids.Nodup) (nonzero : 0 ∉ ids) :
    ids.length < 2 ^ 32 := by
  have numbers : ((0 :: ids).map UInt32.toNat).Nodup := by
    refine List.Nodup.map (fun _ _ => UInt32.toNat_inj.mp) ?_
    exact List.nodup_cons.mpr ⟨nonzero, distinct⟩
  have bound := nodup_length_le numbers fun n member => by
    obtain ⟨id_, -, rfl⟩ := List.mem_map.mp member
    exact id_.toNat_lt
  rw [List.length_map, List.length_cons] at bound
  omega

namespace Threads

theorem WellFormed.threads_lt (well : t.WellFormed) : t.threads.length < 2 ^ 32 := by
  have distinct : (t.threads.map GThread.tid).Nodup := Sorted.nodup well.ascending
  have few := ids_length_lt distinct fun member => by
    obtain ⟨g, among, zero⟩ := List.mem_map.mp member
    exact well.nonzero g among zero
  rwa [List.length_map] at few

theorem WellFormed.queued_lt (well : t.WellFormed) :
    (t.futicies.flatMap Queue.items).length < 2 ^ 32 := by
  refine ids_length_lt ?_ ?_
  · rw [List.nodup_iff_count_eq_one]
    intro tid member
    obtain ⟨q, among, queued⟩ := List.mem_flatMap.mp member
    obtain ⟨g, inside, rfl, waiting⟩ := well.queued q among tid queued
    exact well.parked g inside waiting
  · intro member
    obtain ⟨q, among, queued⟩ := List.mem_flatMap.mp member
    obtain ⟨g, inside, zero, -⟩ := well.queued q among 0 queued
    exact well.nonzero g inside zero

theorem WellFormed.tidy (well : t.WellFormed) : t.futicies.Tidy where
  distinct := by
    rw [Queues.keys, List.nodup_iff_pairwise_ne, List.pairwise_map]
    exact well.distinct
  filled := well.filled

/-! ## Loading what was saved -/

/-- The main thread as a save leaves it. -/
theorem settle_main (c : Context) {g : GThread} (found : t.findThread 1 = some g) :
    (t.settle c).findThread 1 = some { g with threadArea := c.threadArea, rsp := c.guestRsp } := by
  rw [settle, findThread_onThread fun _ => by rfl, found, Option.map_some]

theorem settle_tids (c : Context) : (t.settle c).threads.map GThread.tid =
    t.threads.map GThread.tid :=
  map_modify_self (fun _ => by rfl) _ _

/-- A load of a saved set gives the threads, the queues and the registers that were saved. -/
theorem WellFormed.load (well : t.WellFormed) (main : t.activeTid = 1) (c : Context)
    (spec : u.spec = 3 ↔ t.spec = 3) (active : u.activeTid = 1) (d : Context) (rest : Bytes) :
    u.load d ((t.settle c).encode c ++ rest) = (some rest, u.restored (t.settle c), c) := by
  have length : (t.settle c).threads.length = t.threads.length := by
    have same := congrArg List.length (t.settle_tids c)
    rwa [List.length_map, List.length_map] at same
  obtain ⟨g, found⟩ : ∃ g, t.findThread 1 = some g := by
    obtain ⟨g, member, here, -⟩ := well.active
    cases search : t.findThread 1 with
    | none =>
      have none_ := List.find?_eq_none.mp search g member
      rw [here, main] at none_
      simp at none_
    | some g => exact ⟨g, rfl⟩
  have few := well.queued_lt
  have read := load_encode (t := t.settle c) (c := c) ?_ ?_ well.tidy.distinct
    (length ▸ well.threads_lt) ?_ ?_ (settle_main c found) spec active d rest
  · exact read
  · have ascends := well.ascending
    have tids := t.settle_tids c
    rw [← List.pairwise_map (f := GThread.tid), ← tids, List.pairwise_map] at ascends
    exact ascends
  · exact well.aligned.1.trans length.symm
  · have shorter := well.tidy.length_le
    show t.futicies.length < 2 ^ 32
    omega
  · intro q among
    have shorter := (List.sublist_flatten_of_mem
        (List.mem_map_of_mem (f := Queue.items) among)).length_le
    rw [← List.flatMap_def] at shorter
    exact Nat.lt_of_le_of_lt shorter few

end Threads

end WellFormed

end MiniBox
