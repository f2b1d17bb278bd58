import MiniBox.Threads.Steps

/-!
# Virtual time

In a machine of spec 3 the clock moves only when a thread reads it, sleeps or waits, and
every move expires the waits it passes.  `Threads.Timely` is what holds between two calls:
a deadline that is set is ahead of the clock and within its range, and only a waiting
thread has one.  From guest kit revision 2 times saturate, so the range is kept.

The scheduler jumps to the earliest deadline when nobody can run.  That deadline is ahead,
so the clock does not go back; somebody waits for it, so expiry makes a thread runnable and
the scheduler's loop ends with the second look.
-/

namespace MiniBox

open Lib

/-! ## Saturated times -/

section Times

variable {t : Threads}

theorem Threads.clockMax_toNat : clockMax.toNat = 11188625673709551615 := by decide

theorem Threads.nsAdd_bounds (revision : 2 ≤ t.kitRevision) {a b : UInt64} (inside : a ≤ clockMax) :
    a ≤ t.nsAdd a b ∧ t.nsAdd a b ≤ clockMax := by
  have top := clockMax_toNat
  have low : ¬ clockMax < a := UInt64.not_lt.mpr inside
  unfold nsAdd
  simp only [revision, decide_true, Bool.true_and, low, decide_false, Bool.false_or,
    decide_eq_true_eq]
  split
  · exact ⟨inside, UInt64.le_refl _⟩
  · rename_i room
    rw [UInt64.lt_iff_toNat_lt, UInt64.toNat_sub_of_le _ _ inside] at room
    rw [UInt64.le_iff_toNat_le] at inside
    rw [UInt64.le_iff_toNat_le, UInt64.le_iff_toNat_le, UInt64.toNat_add]
    omega

theorem Threads.nsOf_le (revision : 2 ≤ t.kitRevision) (sec : UInt64) {nsec : UInt64}
    (few : nsec.toNat < 1000000000) : t.nsOf sec nsec ≤ clockMax := by
  have top := clockMax_toNat
  have billion : (1000000000 : UInt64).toNat = 1000000000 := rfl
  have inside : nsec ≤ clockMax := by
    rw [UInt64.le_iff_toNat_le]
    omega
  unfold nsOf
  simp only [revision, decide_true, Bool.true_and, decide_eq_true_eq]
  split
  · exact UInt64.le_refl _
  · rename_i room
    rw [UInt64.lt_iff_toNat_lt, UInt64.toNat_div, UInt64.toNat_sub_of_le _ _ inside, billion,
      Nat.not_lt, Nat.le_div_iff_mul_le (by decide)] at room
    rw [UInt64.le_iff_toNat_le, UInt64.toNat_add, UInt64.toNat_mul, billion]
    omega

end Times

/-! ## Sets in time -/

/-- A deadline is that of a waiting thread, within the clock's range, and still ahead. -/
structure Row.Timely (clock : UInt64) (r : Row) : Prop where
  still : r.thread.state ≠ .waiting → r.deadline = 0
  bounded : r.deadline ≤ Threads.clockMax
  ahead : r.deadline ≠ 0 → clock < r.deadline

structure Threads.Timely (t : Threads) (rows : List Row) : Prop where
  lists : t.Lists rows
  each : ∀ r ∈ rows, r.Timely t.vclockNs
  spec : t.spec = 3
  revision : 2 ≤ t.kitRevision
  clock : t.vclockNs ≤ clockMax
  active : ∃ r ∈ rows, r.tid = t.activeTid

/-- A set in time that comes after `t`. -/
def Threads.Later (t t' : Threads) : Prop := (∃ rows, t'.Timely rows) ∧ t.vclockNs ≤ t'.vclockNs

section Sets

variable {t t' s : Threads} {rows : List Row} {clock : UInt64} {tid best : UInt32} {ε α σ : Type}
  {told : ε → Prop} {P : σ → Prop} {r : Except ε (α × σ)}

theorem Threads.Timely.later (timely : t.Timely rows) : t.Later t :=
  ⟨⟨rows, timely⟩, UInt64.le_refl _⟩

theorem Threads.Later.trans (first : t.Later s) (second : s.Later t') : t.Later t' :=
  ⟨second.1, UInt64.le_trans first.2 second.2⟩

theorem Row.Timely.unset (g : GThread) (seq : UInt64) : Timely clock ⟨g, 0, seq⟩ where
  still := fun _ => rfl
  bounded := UInt64.zero_le
  ahead := fun some_ => absurd rfl some_

namespace Threads.Timely

section

variable (timely : t.Timely rows)
include timely

/-- The queues and the counters are nothing to the clock. -/
theorem of_same (threads : t'.threads = t.threads) (deadlines : t'.deadlines = t.deadlines)
    (seqs : t'.seqs = t.seqs) (spec : t'.spec = t.spec) (revision : t'.kitRevision = t.kitRevision)
    (clock : t'.vclockNs = t.vclockNs) (active : t'.activeTid = t.activeTid) : t'.Timely rows where
  lists := ⟨threads.trans timely.lists.threads, deadlines.trans timely.lists.deadlines,
    seqs.trans timely.lists.seqs⟩
  each := clock ▸ timely.each
  spec := spec.trans timely.spec
  revision := revision ▸ timely.revision
  clock := clock ▸ timely.clock
  active := active ▸ timely.active

/-- A change to a thread that keeps its id, and its state or makes it wait. -/
theorem onThread (tid : UInt32) {f : GThread → GThread} (keeps : ∀ g, (f g).tid = g.tid)
    (state : ∀ g, (f g).state = g.state ∨ (f g).state = .waiting) :
    ∃ rows, (t.onThread tid f).Timely rows := by
  refine ⟨_, timely.lists.modify (t.threadIndex tid) f, ?_, timely.spec, timely.revision,
    timely.clock, ?_⟩
  · refine forall_mem_modify timely.each fun r member => ?_
    have before := timely.each r member
    refine ⟨fun still => ?_, before.bounded, before.ahead⟩
    rcases state r.thread with same | waits
    · exact before.still (same ▸ still)
    · exact absurd waits still
  · exact exists_mem_modify (fun r here => (keeps r.thread).trans here) timely.active

/-- A thread woken: no deadline is left. -/
theorem wake (tid : UInt32) : ∃ rows, (t.wake tid).Timely rows := by
  have lists := (timely.lists.modify (t.threadIndex tid) fun g => { g with state := .runnable })
    |>.setDeadline (t.threadIndex tid) 0 0
  rw [List.modify_modify_eq] at lists
  refine ⟨_, lists, ?_, timely.spec, timely.revision, timely.clock, ?_⟩
  · exact forall_mem_modify timely.each fun r _ => .unset _ 0
  · exact exists_mem_modify (fun r here => by exact here) timely.active

/-- A thread parked until a time that is ahead. -/
theorem parkUntil (addr : UInt64) (tid : UInt32) {deadline : UInt64} (seq : UInt64)
    (bounded : deadline ≤ clockMax) (ahead : t.vclockNs < deadline) :
    ∃ rows, ((t.park addr tid).setDeadline (t.threadIndex tid) deadline seq).Timely rows := by
  have lists := (timely.lists.modify (t.threadIndex tid) fun g => { g with state := .waiting })
    |>.setDeadline (t.threadIndex tid) deadline seq
  rw [List.modify_modify_eq] at lists
  refine ⟨_, ⟨lists.threads, lists.deadlines, lists.seqs⟩, ?_, timely.spec, timely.revision,
    timely.clock, ?_⟩
  · exact forall_mem_modify timely.each fun r _ =>
      ⟨fun still => absurd rfl still, bounded, fun _ => ahead⟩
  · exact exists_mem_modify (fun r here => by exact here) timely.active

theorem insertThread (g : GThread) : ∃ rows, (t.insertThread g).Timely rows := by
  have lists := timely.lists.insertThread g
  have inside : place Row.tid g.tid rows ≤ rows.length :=
    (List.dropWhile_sublist _).length_le.trans_eq List.length_reverse
  refine ⟨_, lists, ?_, timely.spec, timely.revision, timely.clock, ?_⟩
  · intro r member
    rcases (List.mem_insertIdx inside).mp member with rfl | before
    · exact .unset g 0
    · exact timely.each r before
  · obtain ⟨r, member, here⟩ := timely.active
    exact ⟨r, (List.mem_insertIdx inside).mpr (.inr member), here⟩

/-- A thread removed that is not the active one. -/
theorem removeThread (other : t.activeTid ≠ tid) : ∃ rows, (t.removeThread tid).Timely rows := by
  have lists := timely.lists.removeThread tid
  refine ⟨_, lists, fun r member => timely.each r (List.mem_of_mem_eraseIdx member), timely.spec,
    timely.revision, timely.clock, ?_⟩
  obtain ⟨r, member, here⟩ := timely.active
  refine ⟨r, ?_, here⟩
  obtain ⟨i, inside, rfl⟩ := List.mem_iff_getElem.mp member
  refine List.mem_eraseIdx_iff_getElem.mpr ⟨i, inside, ?_, rfl⟩
  rintro rfl
  have found := List.findIdx_getElem (w := inside)
  exact other (here.symm.trans (by simpa using found))

/-- The clock moved forward, within its range, and what it passed expired. -/
theorem expire (inside : clock ≤ clockMax) :
    Timely (expireDue { t with vclockNs := clock }) (rows.map (Row.expire clock)) ∧
      (expireDue { t with vclockNs := clock }).vclockNs = clock ∧
      (expireDue { t with vclockNs := clock }).activeTid = t.activeTid := by
  have moved : Lists { t with vclockNs := clock } rows :=
    ⟨timely.lists.threads, timely.lists.deadlines, timely.lists.seqs⟩
  have expired := moved.expireDue
  generalize expireDue { t with vclockNs := clock } = t' at expired
  obtain ⟨runs, now, spec, revision⟩ := expired.keeps
  dsimp only at runs now spec revision
  refine ⟨⟨expired.lists, ?_, ?_, ?_, now ▸ inside, ?_⟩, now, runs⟩
  · intro r member
    obtain ⟨q, before, rfl⟩ := List.mem_map.mp member
    have old := timely.each q before
    rw [now, Row.expire]
    split
    · exact .unset _ 0
    · rename_i early
      refine ⟨old.still, old.bounded, fun some_ => UInt64.not_le.mp fun past => early ?_⟩
      have waits : q.thread.state = .waiting := by
        by_contra still
        exact some_ (old.still still)
      simp [Row.due, due, waits, some_, past]
  · exact spec.trans timely.spec
  · exact revision ▸ timely.revision
  · obtain ⟨q, before, here⟩ := timely.active
    refine ⟨q.expire clock, List.mem_map_of_mem before, ?_⟩
    rw [runs, ← here, Row.expire]
    split <;> rfl

theorem advance (ns : UInt64) : t.Later (t.advance ns) := by
  obtain ⟨forward, inside⟩ := nsAdd_bounds timely.revision (b := ns) timely.clock
  obtain ⟨after, now, -⟩ := timely.expire inside
  exact ⟨⟨_, after⟩, now.symm ▸ forward⟩

end

/-! ## Waking -/

theorem unparkOne (timely : t.Timely rows) (addr : UInt64) : t.Later (t.unparkOne addr).2 := by
  unfold Threads.unparkOne
  split
  · exact ⟨⟨rows, timely.of_same rfl rfl rfl rfl rfl rfl rfl⟩, UInt64.le_refl _⟩
  · rename_i tid rest _
    obtain ⟨rows', woken⟩ := timely.wake tid
    exact ⟨⟨rows', woken.of_same rfl rfl rfl rfl rfl rfl rfl⟩, UInt64.le_refl _⟩

theorem park (timely : t.Timely rows) (addr : UInt64) (tid : UInt32) :
    t.Later (t.park addr tid) := by
  obtain ⟨rows', parked⟩ := timely.onThread tid (f := fun g => { g with state := .waiting })
    (fun _ => rfl) fun _ => .inr rfl
  exact ⟨⟨rows', parked.of_same rfl rfl rfl rfl rfl rfl rfl⟩, UInt64.le_refl _⟩

theorem requeueLoop (source target : UInt64) : ∀ (left wake : Nat) {t : Threads}
    {rows : List Row}, t.Timely rows → t.Later (Threads.requeueLoop source target left wake t).2
  | 0, _, _, _, timely => timely.later
  | left + 1, wake, t, rows, timely => by
    have first := timely.unparkOne source
    rw [Threads.requeueLoop]
    generalize t.unparkOne source = x at first
    obtain ⟨found, s⟩ := x
    cases found with
    | none => exact first
    | some one =>
      obtain ⟨tid, more⟩ := one
      have moved : t.Later (if wake = 0 then s.park target tid else s) := by
        obtain ⟨⟨rows', woken⟩, -⟩ := id first
        split
        · exact first.trans (woken.park target tid)
        · exact first
      cases more with
      | false => exact moved
      | true =>
        obtain ⟨⟨rows', parked⟩, -⟩ := id moved
        exact moved.trans (requeueLoop source target left (wake - 1) parked)

end Threads.Timely

/-! ## The scheduler -/

namespace Threads

/-- Somebody waits for a time. -/
def Awaits (t : Threads) (deadline : UInt64) : Prop :=
  deadline ≠ 0 ∧ ∃ g, (g, deadline) ∈ t.threads.zip t.deadlines ∧ g.state = .waiting

/-- What the search for the earliest deadline has found, before it sees `rest`. -/
theorem earliest_spec : ∀ (seen rest : List (GThread × UInt64)) (found : UInt64),
    (found ≠ 0 → ∃ g, (g, found) ∈ seen ∧ g.state = .waiting) →
    (∀ g d, (g, d) ∈ seen → g.state = .waiting → d ≠ 0 → found ≠ 0 ∧ found ≤ d) →
    let last := rest.foldl
      (fun dl gd =>
        if gd.1.state == .waiting && gd.2 != 0 && (dl == 0 || decide (gd.2 < dl)) then gd.2 else dl)
      found
    (last ≠ 0 → ∃ g, (g, last) ∈ seen ++ rest ∧ g.state = .waiting) ∧
      ∀ g d, (g, d) ∈ seen ++ rest → g.state = .waiting → d ≠ 0 → last ≠ 0 ∧ last ≤ d
  | seen, [], found, has, least => by simpa using ⟨has, least⟩
  | seen, (g, d) :: rest, found, has, least => by
    have next := earliest_spec (seen ++ [(g, d)]) rest
      (if g.state == .waiting && d != 0 && (found == 0 || decide (d < found)) then d else found)
      ?_ ?_
    · simpa [List.append_assoc] using next
    · split
      · rename_i taken
        intro _
        simp only [Bool.and_eq_true, beq_iff_eq] at taken
        exact ⟨g, by simp, taken.1.1⟩
      · intro some_
        obtain ⟨h, inside, waits⟩ := has some_
        exact ⟨h, List.mem_append_left _ inside, waits⟩
    · intro h e member waits some_
      rw [List.mem_append, List.mem_singleton] at member
      rcases member with before | here
      · obtain ⟨nonzero, below⟩ := least h e before waits some_
        split
        · rename_i taken
          simp only [Bool.and_eq_true, bne_iff_ne, Bool.or_eq_true, beq_iff_eq, decide_eq_true_eq]
            at taken
          have less := taken.2.resolve_left nonzero
          exact ⟨taken.1.2, UInt64.le_trans (UInt64.le_of_lt less) below⟩
        · exact ⟨nonzero, below⟩
      · cases here
        split
        · exact ⟨some_, UInt64.le_refl _⟩
        · rename_i kept
          simp only [waits, beq_self_eq_true, bne_iff_ne, ne_eq, some_, not_false_eq_true,
            Bool.true_and, Bool.and_eq_true, Bool.or_eq_true, beq_iff_eq, decide_eq_true_eq,
            true_and, not_or, UInt64.not_lt] at kept
          exact kept

theorem earliest_least (t : Threads) : (t.earliest ≠ 0 → t.Awaits t.earliest) ∧
      ∀ d, t.Awaits d → t.earliest ≠ 0 ∧ t.earliest ≤ d := by
  have spec := earliest_spec [] (t.threads.zip t.deadlines) 0 (fun none_ => absurd rfl none_)
    (by simp)
  rw [List.nil_append] at spec
  exact ⟨fun some_ => ⟨some_, spec.1 some_⟩, fun d awaits => by
    obtain ⟨nonzero, g, member, waits⟩ := awaits
    exact spec.2 g d member waits nonzero⟩

/-- The set once `best` has been chosen to run. -/
def chosen (t : Threads) (c : Context) (best : UInt32) (ret : UInt64) : Threads :=
  if best = t.activeTid then t else { t.store c ret with activeTid := best }

theorem findThread_some (some_ : ∃ g ∈ t.threads, g.tid = tid) :
    ∃ g, t.findThread tid = some g := by
  obtain ⟨g, member, here⟩ := some_
  cases search : t.findThread tid with
  | none =>
    have none_ := List.find?_eq_none.mp search g member
    exact absurd (beq_iff_eq.mpr here) none_
  | some g => exact ⟨g, rfl⟩

/-- What a thread that stops running leaves behind changes nobody's id or state. -/
theorem exists_store {P : UInt32 → TState → Prop} (c : Context) (ret : UInt64)
    (some_ : ∃ g ∈ t.threads, P g.tid g.state) : ∃ g ∈ (t.store c ret).threads, P g.tid g.state :=
  exists_mem_modify (fun _ holds => by exact holds) some_

/-- A turn of the loop that finds somebody. -/
theorem swapLoop_runs (next : t.nextRunnable = some best)
    (active : ∃ g ∈ t.threads, g.tid = t.activeTid) (fuel : Nat) (c : Context) (ret : UInt64) :
    ∃ w c', swapLoop (fuel + 1) t c ret = .ok (w, t.chosen c best ret, c') := by
  obtain ⟨old, found⟩ := findThread_some active
  obtain ⟨g, member, here, -⟩ := nextRunnable_mem next
  obtain ⟨new, there⟩ := findThread_some
    (exists_store (P := fun tid _ => tid = best) c ret ⟨g, member, here⟩)
  rw [swapLoop, next, found, chosen]
  by_cases same : best = t.activeTid
  · exact ⟨old.rax, c, by simp only [if_pos same]⟩
  · refine ⟨new.rax, { c with guestRsp := new.rsp, threadArea := new.threadArea }, ?_⟩
    simp only [if_neg same, swapTo, found, there]

/-- The one that was chosen can run. -/
theorem chosen_runs (next : t.nextRunnable = some best) (c : Context) (ret : UInt64) :
    ∃ g ∈ (t.chosen c best ret).threads, g.tid = (t.chosen c best ret).activeTid ∧
      g.state = .runnable := by
  have found := nextRunnable_mem next
  unfold chosen
  split
  · rename_i same
    rw [← same]
    exact found
  · exact exists_store (P := fun tid state => tid = best ∧ state = .runnable) c ret found

theorem chosen_clock (c : Context) (best : UInt32) (ret : UInt64) :
    (t.chosen c best ret).vclockNs = t.vclockNs := by
  unfold chosen
  split <;> rfl

theorem nextRunnable_eq_none : t.nextRunnable = none ↔ ∀ g ∈ t.threads, g.state ≠ .runnable := by
  constructor
  · intro none_ g member can
    unfold nextRunnable at none_
    split at none_
    · cases none_
    · rw [Option.map_eq_none_iff, List.find?_eq_none] at none_
      exact none_ g member (by simp [can])
  · intro idle
    cases next : t.nextRunnable with
    | none => rfl
    | some best =>
      obtain ⟨g, member, -, can⟩ := nextRunnable_mem next
      exact absurd can (idle g member)

section

variable (lists : t.Lists rows)
include lists

/-- Whom a set waits for, in rows. -/
theorem Lists.awaits {d : UInt64} :
    t.Awaits d ↔ d ≠ 0 ∧ (TState.waiting, d) ∈ rows.map fun r => (r.thread.state, r.deadline) := by
  have pairs : t.threads.zip t.deadlines = rows.map fun r => (r.thread, r.deadline) := by
    rw [lists.threads, lists.deadlines, List.zip_map', List.map_inj_left]
    intros
    rfl
  unfold Awaits
  rw [pairs]
  refine and_congr_right fun _ => ⟨?_, ?_⟩
  · rintro ⟨g, member, waits⟩
    obtain ⟨r, inside, same⟩ := List.mem_map.mp member
    refine List.mem_map.mpr ⟨r, inside, ?_⟩
    cases same
    rw [waits]
  · intro member
    obtain ⟨r, inside, same⟩ := List.mem_map.mp member
    have deadline : r.deadline = d := congrArg Prod.snd same
    exact ⟨r.thread, List.mem_map.mpr ⟨r, inside, by rw [deadline]⟩, congrArg Prod.fst same⟩

/-- Expiry at a time somebody waits for makes a thread runnable. -/
theorem Lists.expireDue_runs (some_ : t.Awaits t.vclockNs) :
    ∃ g ∈ t.expireDue.threads, g.state = .runnable := by
  obtain ⟨nonzero, member⟩ := lists.awaits.mp some_
  obtain ⟨r, inside, same⟩ := List.mem_map.mp member
  have waits : r.thread.state = .waiting := congrArg Prod.fst same
  have deadline : r.deadline = t.vclockNs := congrArg Prod.snd same
  have ended : r.due t.vclockNs = true := by
    simp [Row.due, due, waits, deadline, nonzero]
  rw [lists.expireDue.lists.threads]
  refine ⟨(r.expire t.vclockNs).thread, List.mem_map_of_mem (List.mem_map_of_mem inside), ?_⟩
  rw [Row.expire, if_pos ended]
  rfl

theorem Lists.fastForward_active (active : ∃ g ∈ t.threads, g.tid = t.activeTid) :
    ∃ g ∈ t.fastForward.threads, g.tid = t.fastForward.activeTid := by
  have moved : Threads.Lists { t with vclockNs := t.earliest } rows :=
    ⟨lists.threads, lists.deadlines, lists.seqs⟩
  have expired := moved.expireDue
  have same : t.fastForward.activeTid = t.activeTid := expired.keeps.1
  obtain ⟨g, member, here⟩ := active
  rw [lists.threads] at member
  obtain ⟨r, inside, rfl⟩ := List.mem_map.mp member
  refine ⟨(r.expire t.earliest).thread, ?_, ?_⟩
  · show _ ∈ (Threads.expireDue _).threads
    rw [expired.lists.threads]
    exact List.mem_map_of_mem (List.mem_map_of_mem inside)
  · rw [same, ← here, Row.expire]
    split <;> rfl

/-- With nobody runnable and somebody waiting for a time, the loop moves the clock to the
earliest time anybody waits for, and its next turn finds a thread that can run. -/
theorem Lists.swapLoop_forward (v3 : t.spec = 3) (active : ∃ g ∈ t.threads, g.tid = t.activeTid)
    (idle : t.nextRunnable = none) (some_ : t.earliest ≠ 0) (fuel : Nat) (c : Context)
    (ret : UInt64) :
    ∃ w best ret' c', t.fastForward.nextRunnable = some best ∧
      swapLoop (fuel + 2) t c ret = .ok (w, t.fastForward.chosen c best ret', c') := by
  have moved : Lists { t with vclockNs := t.earliest } rows :=
    ⟨lists.threads, lists.deadlines, lists.seqs⟩
  have ahead := lists.fastForward_active active
  obtain ⟨old, found⟩ := findThread_some active
  obtain ⟨self, still⟩ := findThread_some ahead
  obtain ⟨best, next⟩ : ∃ best, t.fastForward.nextRunnable = some best := by
    obtain ⟨g, member, can⟩ := moved.expireDue_runs (t.earliest_least.1 some_)
    cases next : t.fastForward.nextRunnable with
    | none => exact absurd can (nextRunnable_eq_none.mp next g member)
    | some best => exact ⟨best, rfl⟩
  obtain ⟨w, c', ran⟩ := swapLoop_runs next ahead fuel c self.rax
  refine ⟨w, best, self.rax, c', next, ?_⟩
  rw [swapLoop, idle, found]
  simp only [v3, some_, ne_eq, not_false_eq_true, and_self, if_true, still, ran]

theorem Lists.store (c : Context) (ret : UInt64) : ∃ rows', (t.store c ret).Lists rows' ∧
      rows'.map (fun r => (r.thread.state, r.deadline)) = rows.map fun r =>
      (r.thread.state, r.deadline) :=
  ⟨_, lists.modify _ _, map_modify_self (fun _ => by rfl) _ _⟩

/-- `swap_to_next` with nobody runnable. -/
theorem Lists.swapToNext_forward (v3 : t.spec = 3) (active : ∃ g ∈ t.threads, g.tid = t.activeTid)
    (idle : ∀ g ∈ t.threads, g.state ≠ .runnable) (some_ : ∃ d, t.Awaits d) (c : Context)
    (ret : UInt64) :
    ∃ w t' c', t.swapToNext c ret = .ok (w, t', c') ∧ t.Awaits t'.vclockNs ∧
      (∀ d, t.Awaits d → t'.vclockNs ≤ d) ∧
      ∃ g ∈ t'.threads, g.tid = t'.activeTid ∧ g.state = .runnable := by
  obtain ⟨rows', stored, same⟩ := lists.store c ret
  have awaits : ∀ d, (t.store c ret).Awaits d ↔ t.Awaits d := fun d => by
    rw [stored.awaits, lists.awaits, same]
  obtain ⟨d, waits⟩ := some_
  have found := ((t.store c ret).earliest_least.2 d ((awaits d).mpr waits)).1
  have nobody : (t.store c ret).nextRunnable = none :=
    nextRunnable_eq_none.mpr (forall_mem_modify idle idle)
  obtain ⟨k, length⟩ : ∃ k, t.threads.length + 1 = k + 2 := by
    obtain ⟨g, member, -⟩ := active
    have some_ := List.length_pos_of_mem member
    exact ⟨t.threads.length - 1, by omega⟩
  obtain ⟨w, best, ret', c', next, ran⟩ := stored.swapLoop_forward v3
    (exists_store (P := fun tid _ => tid = t.activeTid) c ret active) nobody found k c ret
  have clock : ((t.store c ret).fastForward.chosen c best ret').vclockNs =
      (t.store c ret).earliest := by
    rw [chosen_clock]
    have moved : Lists { t.store c ret with vclockNs := (t.store c ret).earliest } rows' :=
      ⟨stored.threads, stored.deadlines, stored.seqs⟩
    exact moved.expireDue.keeps.2.1
  refine ⟨w, _, c', ?_, ?_, ?_, chosen_runs next c ret'⟩
  · rw [swapToNext, length]
    exact ran
  · rw [clock]
    exact (awaits _).mp ((t.store c ret).earliest_least.1 found)
  · intro e awaited
    rw [clock]
    exact ((t.store c ret).earliest_least.2 e ((awaits e).mpr awaited)).2

end

/-! ## The scheduler keeps time -/

section

variable (timely : t.Timely rows)
include timely

theorem Timely.store (c : Context) (ret : UInt64) : ∃ rows, (t.store c ret).Timely rows :=
  timely.onThread t.activeTid (fun _ => rfl) fun _ => .inl rfl

/-- A switch to a thread of the set. -/
theorem Timely.activate (some_ : ∃ g ∈ t.threads, g.tid = tid) :
    Timely { t with activeTid := tid } rows where
  lists := ⟨timely.lists.threads, timely.lists.deadlines, timely.lists.seqs⟩
  each := timely.each
  spec := timely.spec
  revision := timely.revision
  clock := timely.clock
  active := by
    obtain ⟨g, member, here⟩ := some_
    rw [timely.lists.threads] at member
    obtain ⟨r, inside, rfl⟩ := List.mem_map.mp member
    exact ⟨r, inside, here⟩

theorem Timely.chosen (next : t.nextRunnable = some best) (c : Context) (ret : UInt64) :
    t.Later (t.chosen c best ret) := by
  refine ⟨?_, UInt64.le_of_eq (Threads.chosen_clock c best ret).symm⟩
  obtain ⟨g, member, here, -⟩ := Threads.nextRunnable_mem next
  rw [Threads.chosen]
  split
  · exact ⟨rows, timely⟩
  · obtain ⟨rows', stored⟩ := timely.store c ret
    exact ⟨rows', stored.activate
      (Threads.exists_store (P := fun tid _ => tid = best) c ret ⟨g, member, here⟩)⟩

/-- The jump to the earliest deadline is a jump ahead. -/
theorem Timely.fastForward (some_ : t.earliest ≠ 0) : t.Later t.fastForward := by
  obtain ⟨nonzero, member⟩ := timely.lists.awaits.mp (t.earliest_least.1 some_)
  obtain ⟨r, inside, same⟩ := List.mem_map.mp member
  have deadline : r.deadline = t.earliest := congrArg Prod.snd same
  have row := timely.each r inside
  have ahead := row.ahead (deadline ▸ nonzero)
  rw [deadline] at ahead
  have forward := UInt64.le_of_lt ahead
  obtain ⟨after, now, -⟩ := timely.expire (deadline ▸ row.bounded)
  exact ⟨⟨_, after⟩, UInt64.le_trans forward (UInt64.le_of_eq now.symm)⟩

end

end Threads

/-- A death of the guest, told with a text. -/
def Death.Told : Death → Prop
  | .guest _ => True
  | _ => False

/-- An end that is an answer from a state `P` holds of, or a death that is told. -/
inductive Ends {ε α σ : Type} (told : ε → Prop) (P : σ → Prop) : Except ε (α × σ) → Prop where
  | died {e : ε} : told e → Ends told P (.error e)
  | ran (a : α) {s : σ} : P s → Ends told P (.ok (a, s))

theorem Ends.of_ok {a : α} {s : σ} (ends : Ends told P r) (ran : r = .ok (a, s)) : P s := by
  cases ends with
  | died => cases ran
  | ran _ holds =>
    cases ran
    exact holds

theorem Ends.of_error {e : ε} (ends : Ends told P r) (died : r = .error e) : told e := by
  cases ends with
  | died holds =>
    cases died
    exact holds
  | ran => cases died

/-- The scheduler always comes back, with a later set in time or a told death. -/
theorem Threads.Timely.swapToNext (timely : t.Timely rows) (c : Context) (ret : UInt64) :
    Ends Death.Told (fun s => t.Later s.1) (t.swapToNext c ret) := by
  obtain ⟨rows', stored⟩ := timely.store c ret
  have active : ∃ g ∈ (t.store c ret).threads, g.tid = (t.store c ret).activeTid := by
    obtain ⟨r, member, here⟩ := stored.active
    refine ⟨r.thread, ?_, here⟩
    rw [stored.lists.threads]
    exact List.mem_map_of_mem member
  obtain ⟨k, length⟩ : ∃ k, t.threads.length + 1 = k + 2 := by
    obtain ⟨r, member, -⟩ := timely.active
    have some_ := List.length_pos_of_mem member
    have same : t.threads.length = rows.length := by rw [timely.lists.threads, List.length_map]
    exact ⟨t.threads.length - 1, by omega⟩
  rw [Threads.swapToNext, length]
  cases next : (t.store c ret).nextRunnable with
  | some best =>
    obtain ⟨w, c', ran⟩ := Threads.swapLoop_runs next active (k + 1) c ret
    rw [ran]
    exact .ran w (stored.chosen next c ret)
  | none =>
    by_cases some_ : (t.store c ret).earliest = 0
    · obtain ⟨old, found⟩ := Threads.findThread_some active
      rw [Threads.swapLoop, next, found]
      simp only [some_, ne_eq, not_true_eq_false, and_false, if_false]
      exact .died trivial
    · obtain ⟨w, best, ret', c', found, ran⟩ :=
        stored.lists.swapLoop_forward stored.spec active next some_ k c ret
      rw [ran]
      have ahead := stored.fastForward some_
      obtain ⟨⟨rows'', after⟩, -⟩ := id ahead
      exact .ran w (ahead.trans (after.chosen found c ret'))

end Sets

end MiniBox
