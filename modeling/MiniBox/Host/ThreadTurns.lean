import MiniBox.Host.ThreadCalls
import MiniBox.Threads.Time

/-!
# What thread and time calls are made of

A call reads and writes words of the guest's memory, changes the thread set in a few ways and
switches threads.  `Machine.Turn` has one case for each of these, and every call is a row of
turns, to its answer or to a death (`ThreadCall.runs`).  What one turn keeps is therefore kept by
all calls, as here whatever accesses to the memory leave of it (`ThreadCall.kept`).
-/

namespace MiniBox

open Lib GuestMemory GuestAccess

/-- A time that a guest may wait for: some time past the clock, or counted from the start. -/
def Threads.Due (start : UInt64) (t : Threads) (deadline : UInt64) : Prop :=
  ∃ sec nsec, badTime sec nsec = false ∧ (deadline = t.nsAdd t.vclockNs (t.nsOf sec nsec) ∨
    deadline = pastStart start (t.nsOf sec nsec))

/-- The deaths an operation on the set ends in. -/
inductive Threads.Dies (t : Threads) : Death → Prop where
  | told (text : String) : Dies t (.guest text)
  | noThread : t.findThread t.activeTid = none → Dies t .noThread
  | swapToNext {c : Context} {ret : UInt64} {d : Death} : t.swapToNext c ret = .error d → Dies t d
  | swapTo {c : Context} {tid : UInt32} {ret : UInt64} {d : Death} :
      (∃ g ∈ t.threads, g.tid = tid) → t.swapTo c tid ret = .error d → Dies t d

/-- The thread `unpark_one` takes is one of the set. -/
theorem Threads.unparkOne_mem {t t' : Threads} {addr : UInt64} {tid : UInt32} {more : Bool}
    (found : t.unparkOne addr = (some (tid, more), t')) : ∃ g ∈ t'.threads, g.tid = tid := by
  unfold unparkOne at found
  split at found
  · cases found
  · rename_i first rest queue
    cases found
    have waits := List.head_dropWhile_not (fun tid => !t.isWaiting tid) (l := t.waiters addr)
      (by rw [queue]; simp)
    simp only [queue, List.head_cons, Bool.not_eq_false'] at waits
    unfold isWaiting at waits
    split at waits
    · cases waits
    · rename_i g here
      have id_ : g.tid = tid := by simpa using List.find?_some here
      exact exists_mem_modify (P := fun g => g.tid = tid)
        (f := fun g => { g with state := .runnable }) (fun _ holds => holds)
        ⟨g, List.mem_of_find?_eq_some here, id_⟩

theorem Threads.takeHeldUnmap_activeTid (t : Threads) :
    t.takeHeldUnmap.2.activeTid = t.activeTid := by
  unfold takeHeldUnmap
  split
  · rfl
  · split_ifs <;> rfl

namespace Machine

variable {M : Type}

theorem yieldValue_memory {m m' : Machine M} {ret w : UInt64}
    (ran : m.yieldValue ret = .ok (w, m')) : m'.memory = m.memory := by
  unfold yieldValue switched at ran
  split at ran
  · cases ran
  · cases ran
    rfl

variable [GuestAccess M]

/-- One turn.  Nothing is taken from the record of a thread, and no record is removed, but of the
threads in `gone`. -/
inductive Turn (start : UInt64) (gone : UInt32 → Prop) (m : Machine M) : Machine M → Prop where
  | read32 (addr : UInt64) : Turn start gone m { m with memory := (read32 m.memory addr).2 }
  | read64 (addr : UInt64) : Turn start gone m { m with memory := (read64 m.memory addr).2 }
  | write32 (addr : UInt64) (v : UInt32) :
      Turn start gone m { m with memory := write32 m.memory addr v }
  | write64 (addr v : UInt64) : Turn start gone m { m with memory := write64 m.memory addr v }
  | protectStack (r : Range) :
      Turn start gone m { m with memory := (protectStack m.memory r).2 }
  | munmap (r : Range) : Turn start gone m { m with memory := munmap m.memory r }
  | advance (ns : UInt64) : Turn start gone m { m with threads := m.threads.advance ns }
  | park (addr : UInt64) :
      Turn start gone m { m with threads := m.threads.park addr m.threads.activeTid }
  | parkUntil (addr : UInt64) {deadline : UInt64} : m.threads.Due start deadline →
      m.threads.vclockNs < deadline → Turn start gone m (m.parkUntil addr deadline)
  | unparkOne (addr : UInt64) :
      Turn start gone m { m with threads := (m.threads.unparkOne addr).2 }
  | requeue (source target : UInt64) (left wake : Nat) : Turn start gone m
      { m with threads := (Threads.requeueLoop source target left wake m.threads).2 }
  | insert (g : GThread) (next : UInt32) :
      Turn start gone m { m with threads := { m.threads.insertThread g with nextTid := next } }
  | touch {f : GThread → GThread} : (∀ g, (f g).tid = g.tid) →
      (∀ g, (f g).stack = g.stack) → (∀ g, (f g).pending = g.pending) →
      (∀ g, (f g).state = g.state ∨ (f g).state = .waiting) →
      Turn start gone m { m with threads := m.threads.onThread m.threads.activeTid f }
  | take : gone m.threads.activeTid →
      Turn start gone m { m with threads := m.threads.takeHeldUnmap.2 }
  | remove {tid : UInt32} : gone tid → m.threads.activeTid ≠ tid →
      Turn start gone m { m with threads := m.threads.removeThread tid }
  | swapToNext {ret w : UInt64} {threads : Threads} {context : Context} :
      m.threads.swapToNext m.context ret = .ok (w, threads, context) →
      Turn start gone m { m with threads, context }
  | swapTo {tid : UInt32} {ret w : UInt64} {threads : Threads} {context : Context} :
      (∃ g ∈ m.threads.threads, g.tid = tid) →
      m.threads.swapTo m.context tid ret = .ok (w, threads, context) →
      Turn start gone m { m with threads, context }

abbrev Turns (start : UInt64) (gone : UInt32 → Prop) : Machine M → Machine M → Prop :=
  Relation.ReflTransGen (Turn start gone)

/-- However the operation ends, turns lead there. -/
abbrev Runs (start : UInt64) (gone : UInt32 → Prop) (m : Machine M) (r : Answer M UInt64) : Prop :=
  Ends (fun e => ∃ s, Turns start gone m s ∧ s.threads.Dies e.1) (Turns start gone m) r

section Operations

variable {start : UInt64} {gone : UInt32 → Prop} (m : Machine M)

theorem Runs.after {m s : Machine M} {r : Answer M UInt64} (turns : Turns start gone m s)
    (runs : Runs start gone s r) : Runs start gone m r := by
  cases runs with
  | died ended =>
    obtain ⟨s', more, dies⟩ := ended
    exact .died ⟨s', turns.trans more, dies⟩
  | ran w more => exact .ran w (turns.trans more)

theorem yieldValue_runs (ret : UInt64) : Runs start gone m (m.yieldValue ret) := by
  unfold yieldValue switched
  split
  next died => exact .died ⟨m, .refl, .swapToNext died⟩
  next ran => exact .ran _ (.single (.swapToNext ran))

theorem swapTo_runs {tid : UInt32} (member : ∃ g ∈ m.threads.threads, g.tid = tid) (ret : UInt64) :
    Runs start gone m (switched m.memory (m.threads.swapTo m.context tid ret)) := by
  unfold switched
  split
  next died => exact .died ⟨m, .refl, .swapTo member died⟩
  next ran => exact .ran _ (.single (.swapTo member ran))

theorem parkMe_runs (ret addr : UInt64) : Runs start gone m (m.parkMe ret addr) :=
  .after (.single (.park addr)) (yieldValue_runs _ ret)

theorem schedYield_runs : Runs start gone m m.schedYield := by
  unfold schedYield
  dsimp only
  split
  · exact .after (.single (.advance _)) (yieldValue_runs _ _)
  · exact yieldValue_runs _ _

theorem setTidAddress_runs (addr : UInt64) : Runs start gone m (m.setTidAddress addr) := by
  unfold setTidAddress
  dsimp only
  split
  next missing => exact .died ⟨m, .refl, .noThread missing⟩
  · exact .ran _ (.single (.touch (fun _ => rfl) (fun _ => rfl) (fun _ => rfl) fun _ => .inl rfl))

theorem spawn_turns (threadArea rsp rip childTid parentTid own : UInt64) :
    Turns start gone m (m.spawn threadArea rsp rip childTid parentTid own).2 := by
  unfold spawn
  dsimp only
  split
  · exact .refl
  · have read : Turns start gone m
        { m with memory := (read64 (read64 m.memory (own + 12 * 8)).2 (own + 13 * 8)).2 } :=
      .tail (.single (.read64 _)) (.read64 _)
    have stack := fun r => read.tail (.protectStack r)
    split
    next refused =>
      have made := congrArg (fun p => Turns start gone m { m with memory := p.2 }) refused
      exact made.mp (stack _)
    next mapped =>
      have made := congrArg (fun p => Turns start gone m { m with memory := p.2 }) mapped
      exact .tail (.tail (.tail (.tail (made.mp (stack _)) (.write64 _ _)) (.write64 _ _))
        (.write32 _ _)) (.insert _ _)

theorem leave_turns (self : GThread) : Turns start gone m (m.leave self) := by
  have waits (s : Machine M) : Turn start gone s { s with
      threads := s.threads.onThread s.threads.activeTid fun g => { g with state := .waiting } } :=
    .touch (fun _ => rfl) (fun _ => rfl) (fun _ => rfl) fun _ => .inr rfl
  unfold leave
  split
  · exact .single (waits m)
  · exact .tail (.tail (.single (.unparkOne self.tidAddress)) (.write32 self.tidAddress 0))
      (waits _)

theorem exit_runs (mine : gone m.threads.activeTid) : Runs start gone m m.exit := by
  unfold exit
  split
  · exact .died ⟨m, .refl, .told _⟩
  · split
    next missing => exact .died ⟨m, .refl, .noThread missing⟩
    next self _ =>
      have left : Runs start gone m ((m.leave self).yieldValue (sok 0)) :=
        .after (m.leave_turns self) (yieldValue_runs _ _)
      unfold yield
      generalize (m.leave self).yieldValue (sok 0) = r at left
      cases left with
      | died ended => exact .died ended
      | ran ret turns =>
        dsimp only
        split
        · exact .died ⟨_, turns, .told _⟩
        next other => exact .ran ret (turns.tail (.remove mine other))

theorem exitThread_runs (mine : gone m.threads.activeTid) : Runs start gone m m.exitThread := by
  have taken : Turns start gone m { m with threads := m.threads.takeHeldUnmap.2 } :=
    .single (.take mine)
  have ended := Runs.after taken (exit_runs _ (m.threads.takeHeldUnmap_activeTid.symm ▸ mine))
  unfold exitThread
  dsimp only
  generalize exit { m with threads := m.threads.takeHeldUnmap.2 } = r at ended
  cases ended with
  | died ended => exact .died ended
  | ran ret turns =>
    cases m.threads.takeHeldUnmap.1 with
    | none => exact .ran ret turns
    | some range => exact .ran ret (turns.tail (.munmap range))

theorem futexWait_runs (addr : UInt64) (compare : UInt32) :
    Runs start gone m (m.futexWait addr compare) := by
  unfold futexWait
  refine .after (.single (.read32 addr)) ?_
  dsimp only
  split
  · exact .ran _ .refl
  · exact parkMe_runs _ _ _

theorem futexWaitTimeout_runs (addr : UInt64) (compare : UInt32) {deadline : UInt64}
    (due : m.threads.Due start deadline) :
    Runs start gone m (m.futexWaitTimeout addr compare true deadline) := by
  unfold futexWaitTimeout
  refine .after (.single (.read32 addr)) ?_
  dsimp only
  split
  · exact .ran _ .refl
  · split
    · exact parkMe_runs _ _ _
    · split
      · refine .after (.single (.advance Threads.tickNs)) ?_
        split
        · exact yieldValue_runs _ _
        · exact .ran _ .refl
      next early =>
        exact .after (.single (.parkUntil addr due (UInt64.not_le.mp early))) (yieldValue_runs _ _)

theorem futexLockPi_runs (addr : UInt64) : Runs start gone m (m.futexLockPi addr) := by
  unfold futexLockPi
  refine .after (.single (.read32 addr)) ?_
  dsimp only
  split
  · exact .ran _ (.single (.write32 addr _))
  · exact .after (.tail (.single (.read32 addr)) (.write32 addr _)) (parkMe_runs _ _ _)

theorem futexUnlockPi_runs (addr : UInt64) : Runs start gone m (m.futexUnlockPi addr) := by
  have woken : Turns start gone m _ := .single (.unparkOne addr)
  unfold futexUnlockPi
  cases found : m.threads.unparkOne addr with
  | mk one threads =>
    rw [found] at woken
    cases one with
    | none => exact .ran _ (woken.tail (.write32 addr 0))
    | some next =>
      obtain ⟨tid, more⟩ := next
      exact .after (woken.tail (.write32 addr (if more then tid ||| futexWaiters else tid)))
        (swapTo_runs _ (Threads.unparkOne_mem found) _)

theorem wakeAll_runs (addr count : UInt64) : Runs start gone m (m.wakeAll addr count) := by
  unfold wakeAll
  refine .after (.single (.requeue addr 0 count.toUInt32.toNat count.toUInt32.toNat)) ?_
  dsimp only
  split
  · exact yieldValue_runs _ _
  · exact .ran _ .refl

theorem readTimespec_turns (addr : UInt64) : Turns start gone m (m.readTimespec addr).2 :=
  .tail (.single (.read64 _)) (.read64 _)

theorem writeTimespec_turns (addr sec nsec : UInt64) :
    Turns start gone m (m.writeTimespec addr sec nsec) :=
  .tail (.single (.write64 _ _)) (.write64 _ _)

theorem sleepUntil_turns (flags target : UInt64) :
    Turns start gone m { m with threads := sleepUntil m.threads start flags target } := by
  unfold sleepUntil
  dsimp only
  split
  · split
    · exact .single (.advance _)
    · exact .refl
  · exact .single (.advance _)

theorem futex_runs (addr word val timeout addr2 : UInt64) :
    Runs start gone m (m.futex start addr word val timeout addr2) := by
  unfold futex
  dsimp only
  split
  · exact .ran _ .refl
  · split
    · exact .ran _ .refl
    · split
      · split
        · exact .ran _ .refl
        · refine .after (m.readTimespec_turns timeout) ?_
          split
          · exact .ran _ .refl
          next good =>
            refine futexWaitTimeout_runs _ _ _ ⟨_, _, by simpa using good, ?_⟩
            split
            · exact .inl rfl
            · exact .inr rfl
      · unfold futexPlain
        split
        · exact futexWait_runs _ _ _
        · exact futexWait_runs _ _ _
        · exact wakeAll_runs _ _ _
        · exact wakeAll_runs _ _ _
        · exact .ran _ (.single (.requeue _ _ _ _))
        · exact futexLockPi_runs _ _
        · exact futexUnlockPi_runs _ _
        · exact .ran _ .refl

end Operations

end Machine

open Machine in
/-- Every thread or time call is a row of turns; only an exit takes from a record and removes one,
and these are the thread's own. -/
theorem ThreadCall.runs {M : Type} [GuestAccess M] {start : UInt64} {gone : UInt32 → Prop}
    (m : Machine M) (call : ThreadCall)
    (mine : call = .exit → gone m.threads.activeTid) : Runs start gone m (call.run start m) := by
  cases call with
  | clockGettime ts =>
    rw [run, Machine.clockGettime]
    split
    · exact .ran _ .refl
    · split
      · refine .after (.single (.advance Threads.tickNs)) (.after ?_ (yieldValue_runs _ _))
        exact writeTimespec_turns _ _ _ _
      · exact .ran _ (m.writeTimespec_turns _ _ _)
  | nanosleep req =>
    rw [run, Machine.nanosleep]
    split
    · exact yieldValue_runs _ _
    · split
      · exact .ran _ .refl
      · refine .after (m.readTimespec_turns req) ?_
        dsimp only
        split
        · exact .ran _ .refl
        · exact .after (.single (.advance _)) (yieldValue_runs _ _)
  | clockNanosleep flags req rem =>
    rw [run, Machine.clockNanosleep]
    split
    · exact yieldValue_runs _ _
    · split
      · exact .ran _ .refl
      · refine .after (m.readTimespec_turns req) ?_
        dsimp only
        split
        · exact .ran _ .refl
        · have slept (target : UInt64) : Turns start gone (m.readTimespec req).2 _ :=
            sleepUntil_turns _ flags target
          split
          · exact .after (slept _) (yieldValue_runs _ _)
          · split
            · exact .ran _ (slept _)
            · exact .after ((slept _).trans (writeTimespec_turns _ _ _ _)) (yieldValue_runs _ _)
  | schedYield => exact m.schedYield_runs
  | wbxClone area rsp rip child parent =>
    have spawned : Turns start gone m _ := m.spawn_turns area rsp rip child parent area
    rw [run, Machine.wbxClone]
    split
    · exact .ran _ .refl
    · split
      · exact .ran _ .refl
      · split
        · exact .ran _ .refl
        · generalize m.spawn area rsp rip child parent area = one at spawned
          obtain ⟨r, m'⟩ := one
          cases r with
          | error e => exact .ran _ spawned
          | ok tid => exact .ran _ spawned
  | exit => exact m.exitThread_runs (mine rfl)
  | tkill tid sig =>
    rw [run, Machine.tkill]
    split
    · exact .ran _ .refl
    · split
      · exact .died ⟨m, .refl, .told _⟩
      · exact .died ⟨m, .refl, .told _⟩
  | setTidAddress addr => exact m.setTidAddress_runs _
  | gettid => exact .ran _ .refl
  | futex addr word val timeout addr2 => exact m.futex_runs addr word val timeout addr2

theorem ThreadCall.turns {M : Type} [GuestAccess M] {start w : UInt64} {gone : UInt32 → Prop}
    {m m' : Machine M} {call : ThreadCall} (ran : call.run start m = .ok (w, m'))
    (mine : call = .exit → gone m.threads.activeTid) : Machine.Turns start gone m m' :=
  (call.runs m mine).of_ok ran

/-! ## What is left of the memory -/

/-- No access to the memory changes what `f` gives of it. -/
structure Machine.Kept {M α : Type} [GuestAccess M] (f : M → α) : Prop where
  read32 : ∀ memory addr, f (read32 memory addr).2 = f memory
  read64 : ∀ memory addr, f (read64 memory addr).2 = f memory
  write32 : ∀ memory addr v, f (write32 memory addr v) = f memory
  write64 : ∀ memory addr v, f (write64 memory addr v) = f memory
  protectStack : ∀ memory r, f (protectStack memory r).2 = f memory
  munmap : ∀ memory r, f (munmap memory r) = f memory

section Kept

variable {M α : Type} [GuestAccess M] {f : M → α} {start : UInt64} {m m' : Machine M}

theorem Machine.Turn.kept {gone : UInt32 → Prop} (kept : Kept f) (turn : Turn start gone m m') :
    f m'.memory = f m.memory := by
  cases turn with
  | read32 addr => exact kept.read32 _ addr
  | read64 addr => exact kept.read64 _ addr
  | write32 addr v => exact kept.write32 _ addr v
  | write64 addr v => exact kept.write64 _ addr v
  | protectStack r => exact kept.protectStack _ r
  | munmap r => exact kept.munmap _ r
  | _ => rfl

/-- No thread or time call changes it either. -/
theorem ThreadCall.kept {call : ThreadCall} {w : UInt64} (kept : Machine.Kept f)
    (ran : call.run start m = .ok (w, m')) : f m'.memory = f m.memory := by
  have turns : Machine.Turns start (fun _ => True) m m' := turns ran fun _ => trivial
  clear ran
  induction turns with
  | refl => rfl
  | tail _ turn ih => exact (turn.kept kept).trans ih

end Kept

end MiniBox
