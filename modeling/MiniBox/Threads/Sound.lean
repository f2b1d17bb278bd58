import MiniBox.Threads.Rows

/-!
# The invariant of the thread set

`Threads.Sound` is what holds of a set at every moment the scheduler can look at it: ids
ascend and none is given out twice, a thread that can run has no deadline and no mark, and the
queues hold exactly the
threads that wait, each in one of them and once.  While a thread ends it waits in no queue;
`away` names it.

Each change to the arrays and the queues that an operation makes keeps it.  `Behind` says
how such a change treats those who wait: the ones that stay keep their order, the ones that
come stand behind them.
-/

namespace MiniBox

open Lib

/-- The row of one thread changed. -/
def Row.on (tid : UInt32) (f : Row → Row) (r : Row) : Row := if r.tid = tid then f r else r

/-- A row with its thread changed. -/
def Row.touched (f : GThread → GThread) (r : Row) : Row := { r with thread := f r.thread }

/-- A row in another state, with a deadline and a mark. -/
def Row.marked (state : TState) (deadline seq : UInt64) (r : Row) : Row :=
  ⟨{ r.thread with state := state }, deadline, seq⟩

@[simp] theorem Row.marked_tid (state : TState) (deadline seq : UInt64) (r : Row) :
    (r.marked state deadline seq).tid = r.tid := rfl

@[simp] theorem Row.marked_state (state : TState) (deadline seq : UInt64) (r : Row) :
    (r.marked state deadline seq).thread.state = state := rfl

/-- Waiting in a queue. -/
def Queued (rows : List Row) (away : Option UInt32) (tid : UInt32) : Prop :=
  away ≠ some tid ∧ ∃ r ∈ rows, r.tid = tid ∧ r.thread.state = .waiting

structure Threads.Sound (t : Threads) (rows : List Row) (away : Option UInt32) : Prop where
  lists : t.Lists rows
  sorted : Sorted Row.tid rows
  /-- ids are given out in order until they have all been given out; none is 0 -/
  ids : ∀ r ∈ rows, r.tid ≠ 0 ∧ (t.nextTid = 0 ∨ r.tid < t.nextTid)
  unmarked : ∀ r ∈ rows, r.thread.state = .runnable → r.deadline = 0 ∧ r.seq = 0
  untimed : t.spec ≠ 3 → ∀ r ∈ rows, r.deadline = 0
  /-- the thread that ends is not woken, and no clock wakes it -/
  gone : ∀ r ∈ rows, away = some r.tid → r.thread.state = .waiting ∧ r.deadline = 0
  holds : t.futicies.Holds (Queued rows away)

section Rows

variable {rows : List Row} {tid : UInt32} {f : Row → Row}

theorem Row.on_tid (keeps : ∀ r, (f r).tid = r.tid) (r : Row) : (r.on tid f).tid = r.tid := by
  unfold on
  split
  · exact keeps r
  · rfl

theorem sorted_map_on (sorted : Sorted Row.tid rows) (keeps : ∀ r, (f r).tid = r.tid) :
    Sorted Row.tid (rows.map (Row.on tid f)) := by
  rw [Sorted, List.pairwise_map]
  exact sorted.imp fun {r s} less => by rw [Row.on_tid keeps, Row.on_tid keeps]; exact less

theorem mem_map_on {s : Row} : s ∈ rows.map (Row.on tid f) ↔
    (∃ r ∈ rows, r.tid = tid ∧ s = f r) ∨ s ∈ rows ∧ s.tid ≠ tid := by
  simp only [List.mem_map, Row.on]
  constructor
  · rintro ⟨r, member, rfl⟩
    split
    · rename_i same
      exact .inl ⟨r, member, same, rfl⟩
    · rename_i other
      exact .inr ⟨member, other⟩
  · rintro (⟨r, member, same, rfl⟩ | ⟨member, other⟩)
    · exact ⟨r, member, if_pos same⟩
    · exact ⟨s, member, if_neg other⟩

/-- Who waits, when one thread's row is changed. -/
theorem queued_map_on (keeps : ∀ r, (f r).tid = r.tid) (away : Option UInt32) (y : UInt32) :
    Queued (rows.map (Row.on tid f)) away y ↔
      if y = tid then away ≠ some tid ∧ ∃ r ∈ rows, r.tid = tid ∧ (f r).thread.state = .waiting
      else Queued rows away y := by
  simp only [Queued, mem_map_on]
  by_cases same : y = tid
  · subst same
    rw [if_pos rfl]
    refine and_congr_right fun _ => ⟨?_, ?_⟩
    · rintro ⟨s, ⟨r, member, here, rfl⟩ | ⟨_, other⟩, at_, waits⟩
      · exact ⟨r, member, here, waits⟩
      · exact absurd at_ other
    · rintro ⟨r, member, here, waits⟩
      exact ⟨f r, .inl ⟨r, member, here, rfl⟩, (keeps r).trans here, waits⟩
  · rw [if_neg same]
    refine and_congr_right fun _ => ⟨?_, ?_⟩
    · rintro ⟨s, ⟨r, _, here, rfl⟩ | ⟨member, _⟩, at_, waits⟩
      · exact absurd (at_.symm.trans ((keeps r).trans here)) same
      · exact ⟨s, member, at_, waits⟩
    · rintro ⟨r, member, at_, waits⟩
      exact ⟨r, .inr ⟨member, fun here => same (at_.symm.trans here)⟩, at_, waits⟩

end Rows

section Arrays

variable {t : Threads} {rows : List Row}

namespace Threads.Lists

section

variable (lists : t.Lists rows)
include lists

theorem modify_index (sorted : Sorted Row.tid rows) (tid : UInt32) (f : Row → Row) :
    rows.modify (t.threadIndex tid) f = rows.map (Row.on tid f) := by
  rw [lists.threadIndex, modify_findIdx tid f sorted.nodup]
  rfl

theorem on (sorted : Sorted Row.tid rows) (tid : UInt32) (f : GThread → GThread) :
    (t.onThread tid f).Lists (rows.map (Row.on tid (Row.touched f))) := by
  have changed := lists.modify (t.threadIndex tid) f
  rw [lists.modify_index sorted] at changed
  exact changed

theorem onMarked (sorted : Sorted Row.tid rows) (tid : UInt32) (state : TState)
    (deadline seq : UInt64) :
    ((t.onThread tid fun g => { g with state := state }).setDeadline (t.threadIndex tid)
      deadline seq).Lists (rows.map (Row.on tid (Row.marked state deadline seq))) := by
  have changed := (lists.modify (t.threadIndex tid) fun g => { g with state := state }).setDeadline
    (t.threadIndex tid) deadline seq
  rw [List.modify_modify_eq, lists.modify_index sorted] at changed
  exact changed

theorem findThread (sorted : Sorted Row.tid rows) {r : Row} (member : r ∈ rows) :
    t.findThread r.tid = some r.thread := by
  rw [Threads.findThread, lists.threads, List.find?_map]
  have found : rows.find? (fun s => s.tid == r.tid) = some r := by
    cases search : rows.find? (fun s => s.tid == r.tid) with
    | none =>
      have none_ := List.find?_eq_none.mp search r member
      simp at none_
    | some s =>
      have same : s.tid = r.tid := by simpa using List.find?_some search
      rw [sorted.unique (List.mem_of_find?_eq_some search) member same]
  show Option.map Row.thread (rows.find? fun s => s.tid == r.tid) = _
  rw [found]
  rfl

theorem mem_of_findThread {tid : UInt32} {g : GThread} (found : t.findThread tid = some g) :
    ∃ r ∈ rows, r.tid = tid ∧ r.thread = g := by
  rw [Threads.findThread, lists.threads] at found
  have member := List.mem_of_find?_eq_some found
  have same : g.tid = tid := by simpa using List.find?_some found
  obtain ⟨r, inside, rfl⟩ := List.mem_map.mp member
  exact ⟨r, inside, same, rfl⟩

end

end Threads.Lists

end Arrays

/-! ## Changes that keep the invariant -/

section Sound

variable {t t' : Threads} {rows : List Row} {away away' : Option UInt32} {tid : UInt32}
variable {f : Row → Row}

namespace Threads.Sound

/-- One row changed, with the queues to match. -/
theorem on (sound : t.Sound rows away) (keeps : ∀ r, (f r).tid = r.tid)
    (lists : t'.Lists (rows.map (Row.on tid f))) (next : t'.nextTid = t.nextTid)
    (spec : t'.spec = t.spec)
    (unmarked : ∀ r ∈ rows, r.tid = tid → (f r).thread.state = .runnable →
      (f r).deadline = 0 ∧ (f r).seq = 0)
    (untimed : t.spec ≠ 3 → ∀ r ∈ rows, r.tid = tid → (f r).deadline = 0)
    (gone : ∀ s ∈ rows.map (Row.on tid f), away' = some s.tid →
      s.thread.state = .waiting ∧ s.deadline = 0)
    (holds : t'.futicies.Holds (Queued (rows.map (Row.on tid f)) away')) :
    t'.Sound (rows.map (Row.on tid f)) away' where
  lists := lists
  sorted := sorted_map_on sound.sorted keeps
  ids := fun s member => by
    obtain ⟨r, inside, rfl⟩ := List.mem_map.mp member
    rw [Row.on_tid keeps, next]
    exact sound.ids r inside
  unmarked := fun s member runs => by
    rcases mem_map_on.mp member with ⟨r, inside, here, rfl⟩ | ⟨inside, -⟩
    · exact unmarked r inside here runs
    · exact sound.unmarked s inside runs
  untimed := fun v2 s member => by
    rw [spec] at v2
    rcases mem_map_on.mp member with ⟨r, inside, here, rfl⟩ | ⟨inside, -⟩
    · exact untimed v2 r inside here
    · exact sound.untimed v2 s inside
  gone := gone
  holds := holds

/-- A change to a thread that leaves its id and its state alone. -/
theorem touch (sound : t.Sound rows away) (tid : UInt32) {g : GThread → GThread}
    (id_ : ∀ x, (g x).tid = x.tid) (state : ∀ x, (g x).state = x.state) :
    (t.onThread tid g).Sound (rows.map (Row.on tid (Row.touched g))) away := by
  have keeps : ∀ r : Row, (r.touched g).tid = r.tid := fun r => id_ r.thread
  refine sound.on keeps (sound.lists.on sound.sorted tid g) rfl rfl ?_ ?_ ?_ ?_
  · intro r member _ runs
    exact sound.unmarked r member ((state r.thread).symm.trans runs)
  · intro v2 r member _
    exact sound.untimed v2 r member
  · intro s member ends
    rcases mem_map_on.mp member with ⟨r, inside, here, rfl⟩ | ⟨inside, -⟩
    · obtain ⟨waits, quiet⟩ := sound.gone r inside (ends.trans (congrArg some (keeps r)))
      exact ⟨(state r.thread).trans waits, quiet⟩
    · exact sound.gone s inside ends
  · refine sound.holds.congr fun y => ?_
    rw [queued_map_on keeps]
    split
    · rename_i same
      subst same
      simp only [Queued, Row.touched, state]
    · exact Iff.rfl

/-- The first in a queue is woken. -/
theorem wake (sound : t.Sound rows away) {addr : UInt64} {rest : List UInt32}
    (head : t.waiters addr = tid :: rest) :
    Sound { t.wake tid with futicies := t.futicies.put addr rest }
      (rows.map (Row.on tid (Row.marked .runnable 0 0))) away := by
  have waits : Queued rows away tid := (sound.holds.mem tid).mp ⟨addr, by
    show tid ∈ t.waiters addr
    simp [head]⟩
  have lists := sound.lists.onMarked sound.sorted tid .runnable 0 0
  refine sound.on (Row.marked_tid _ _ _) ⟨lists.threads, lists.deadlines, lists.seqs⟩ rfl rfl
    ?_ ?_ ?_ ?_
  · exact fun _ _ _ _ => ⟨rfl, rfl⟩
  · exact fun _ _ _ _ => rfl
  · intro s member ends
    rcases mem_map_on.mp member with ⟨r, _, here, rfl⟩ | ⟨inside, -⟩
    · exact absurd (ends.trans (congrArg some here)) waits.1
    · exact sound.gone s inside ends
  · refine (sound.holds.put head).congr fun y => ?_
    rw [queued_map_on (Row.marked_tid _ _ _)]
    by_cases same : y = tid
    · simp [same]
    · simp [same]

/-- A thread that can run goes behind the others at an address. -/
theorem parkMarked (sound : t.Sound rows none) {r : Row} (member : r ∈ rows)
    (runs : r.thread.state = .runnable) (addr deadline seq : UInt64)
    (v3 : deadline = 0 ∨ t.spec = 3)
    (lists : t'.Lists (rows.map (Row.on r.tid (Row.marked .waiting deadline seq))))
    (next : t'.nextTid = t.nextTid) (spec : t'.spec = t.spec)
    (queues : t'.futicies = t.futicies.extend addr [r.tid]) :
    t'.Sound (rows.map (Row.on r.tid (Row.marked .waiting deadline seq))) none := by
  have absent : ¬ Queued rows none r.tid := by
    rintro ⟨-, s, inside, same, waits⟩
    rw [sound.sorted.unique inside member same, runs] at waits
    cases waits
  refine sound.on (Row.marked_tid _ _ _) lists next spec ?_ ?_ ?_ ?_
  · intro s _ _ still
    cases still
  · intro v2 s _ _
    exact v3.resolve_right v2
  · intro s _ ends
    cases ends
  · rw [queues]
    refine (sound.holds.extend addr absent).congr fun y => ?_
    rw [queued_map_on (Row.marked_tid _ _ _)]
    by_cases same : y = r.tid
    · simp only [same, or_true, if_true, true_iff]
      exact ⟨by simp, r, member, rfl, rfl⟩
    · simp [same]

theorem park (sound : t.Sound rows none) {r : Row} (member : r ∈ rows)
    (runs : r.thread.state = .runnable) (addr : UInt64) :
    (t.park addr r.tid).Sound (rows.map (Row.on r.tid (Row.marked .waiting 0 0))) none := by
  have same : rows.map (Row.on r.tid (Row.touched fun g => { g with state := .waiting })) =
      rows.map (Row.on r.tid (Row.marked .waiting 0 0)) := by
    refine List.map_congr_left fun s inside => ?_
    unfold Row.on
    split
    · rename_i here
      -- a thread that can run carries no deadline and no mark
      obtain ⟨quiet, unmarked⟩ := sound.unmarked s inside
        (by rw [sound.sorted.unique inside member here]; exact runs)
      simp only [Row.touched, Row.marked, quiet, unmarked]
    · rfl
  have lists := sound.lists.on sound.sorted r.tid fun g => { g with state := .waiting }
  rw [same] at lists
  exact sound.parkMarked member runs addr 0 0 (.inl rfl)
    ⟨lists.threads, lists.deadlines, lists.seqs⟩
    rfl rfl rfl

/-- A thread on its way out: off the runnable ones, in no queue. -/
theorem leaves (sound : t.Sound rows none) {r : Row} (member : r ∈ rows)
    (runs : r.thread.state = .runnable) :
    (t.onThread r.tid fun g => { g with state := .waiting }).Sound
      (rows.map (Row.on r.tid (Row.touched fun g => { g with state := .waiting })))
      (some r.tid) := by
  have keeps : ∀ s : Row, (s.touched fun g => { g with state := .waiting }).tid = s.tid := fun _ =>
      rfl
  have absent : ¬ Queued rows none r.tid := by
    rintro ⟨-, s, inside, same, waits⟩
    rw [sound.sorted.unique inside member same, runs] at waits
    cases waits
  refine sound.on keeps (sound.lists.on sound.sorted r.tid _) rfl rfl ?_ ?_ ?_ ?_
  · intro s _ _ still
    cases still
  · intro v2 s inside _
    exact sound.untimed v2 s inside
  · intro s changed ends
    rcases mem_map_on.mp changed with ⟨q, inside, here, rfl⟩ | ⟨inside, other⟩
    · rw [sound.sorted.unique inside member here]
      exact ⟨rfl, (sound.unmarked r member runs).1⟩
    · exact absurd (Option.some.inj ends).symm other
  · refine sound.holds.congr fun y => ?_
    rw [queued_map_on keeps]
    by_cases same : y = r.tid
    · simp [same, absent]
    · have other : r.tid ≠ y := fun eq => same eq.symm
      simp [same, Queued, other]

/-- The thread that waits in no queue is taken off the set. -/
theorem remove (sound : t.Sound rows (some tid)) :
    (t.removeThread tid).Sound (rows.filter fun r => r.tid != tid) none where
  lists := by
    have erased := sound.lists.removeThread tid
    rw [eraseIdx_findIdx tid sound.sorted.nodup] at erased
    exact erased
  sorted := sound.sorted.filter _
  ids := fun r member => sound.ids r (List.mem_filter.mp member).1
  unmarked := fun r member => sound.unmarked r (List.mem_filter.mp member).1
  untimed := fun v2 r member => sound.untimed v2 r (List.mem_filter.mp member).1
  gone := fun _ _ ends => by cases ends
  holds := by
    refine sound.holds.congr fun y => ?_
    constructor
    · rintro ⟨stays, r, member, here, waits⟩
      refine ⟨by simp, r, List.mem_filter.mpr ⟨member, ?_⟩, here, waits⟩
      have other : r.tid ≠ tid := fun same => stays (congrArg some (same.symm.trans here))
      simpa using other
    · rintro ⟨-, r, member, here, waits⟩
      obtain ⟨inside, other⟩ := List.mem_filter.mp member
      refine ⟨?_, r, inside, here, waits⟩
      intro same
      have equal : tid = y := Option.some.inj same
      simp [here, equal] at other

/-- A new thread takes the next id, while there is one. -/
theorem spawn (sound : t.Sound rows none) {g : GThread} (runs : g.state = .runnable)
    (next : g.tid = t.nextTid) (left : t.nextTid ≠ 0) :
    Sound { t.insertThread g with nextTid := t.nextTid + 1 }
      (rows.insertIdx (place Row.tid g.tid rows) ⟨g, 0, 0⟩) none := by
  have below : ∀ r ∈ rows, r.tid < t.nextTid := fun r member =>
    (sound.ids r member).2.resolve_left left
  have fresh : ∀ r ∈ rows, r.tid ≠ g.tid := fun r member same => by
    have less := below r member
    rw [same, next] at less
    exact UInt32.lt_irrefl _ less
  have member : ∀ {r}, r ∈ rows.insertIdx (place Row.tid g.tid rows) ⟨g, 0, 0⟩ →
      r = ⟨g, 0, 0⟩ ∨ r ∈ rows := (mem_insert_place sound.sorted).mp
  have lists := sound.lists.insertThread g
  refine ⟨⟨lists.threads, lists.deadlines, lists.seqs⟩, sound.sorted.insert (x := ⟨g, 0, 0⟩) fresh,
    ?_, ?_, ?_, ?_, ?_⟩
  · intro r inside
    show r.tid ≠ 0 ∧ (t.nextTid + 1 = 0 ∨ r.tid < t.nextTid + 1)
    rcases member inside with rfl | inside
    · show g.tid ≠ 0 ∧ (t.nextTid + 1 = 0 ∨ g.tid < t.nextTid + 1)
      rw [next]
      grind
    · have less := below r inside
      have some_ := (sound.ids r inside).1
      grind
  · intro r inside still
    rcases member inside with rfl | inside
    · exact ⟨rfl, rfl⟩
    · exact sound.unmarked r inside still
  · intro v2 r inside
    rcases member inside with rfl | inside
    · rfl
    · exact sound.untimed v2 r inside
  · intro r _ ends
    cases ends
  · refine sound.holds.congr fun y => and_congr_right fun _ => ⟨?_, ?_⟩
    · rintro ⟨r, inside, here, waits⟩
      exact ⟨r, (mem_insert_place sound.sorted).mpr (.inr inside), here, waits⟩
    · rintro ⟨r, inside, here, waits⟩
      rcases member inside with rfl | inside
      · rw [runs] at waits
        cases waits
      · exact ⟨r, inside, here, waits⟩

/-- Expiry. -/
theorem expireDue (sound : t.Sound rows away) :
    t.expireDue.Sound (rows.map (Row.expire t.vclockNs)) away := by
  have expired := sound.lists.expireDue
  have keeps : ∀ r : Row, (r.expire t.vclockNs).tid = r.tid := fun r => by
    unfold Row.expire
    split <;> rfl
  have waits : ∀ y, Queued (rows.map (Row.expire t.vclockNs)) away y ↔
      Queued rows away y ∧ dueTid t.vclockNs rows y = false := fun y => by
    simp only [Queued, dueTid, List.any_eq_false]
    constructor
    · rintro ⟨stays, s, member, here, waits⟩
      obtain ⟨r, inside, rfl⟩ := List.mem_map.mp member
      have early : r.due t.vclockNs = false := by
        by_contra ended
        rw [Row.expire, if_pos (by simpa using ended)] at waits
        cases waits
      rw [Row.expire, if_neg (by simp [early])] at here waits
      refine ⟨⟨stays, r, inside, here, waits⟩, fun s other => ?_⟩
      by_cases same : s.tid = y
      · rw [sound.sorted.unique other inside (same.trans here.symm), early]
        simp
      · simp [same]
    · rintro ⟨⟨stays, r, inside, here, waits⟩, early⟩
      have not_ : r.due t.vclockNs = false := by
        have := early r inside
        simpa [here] using this
      refine ⟨stays, r, List.mem_map.mpr ⟨r, inside, ?_⟩, here, waits⟩
      rw [Row.expire, if_neg (by simp [not_])]
  have spec : t.expireDue.spec = t.spec := by rw [expired.rest]
  have next : t.expireDue.nextTid = t.nextTid := by rw [expired.rest]
  refine ⟨expired.lists, ?_, ?_, ?_, ?_, ?_, ?_⟩
  · rw [Sorted, List.pairwise_map]
    exact sound.sorted.imp fun {r s} less => by rw [keeps, keeps]; exact less
  · intro s member
    obtain ⟨r, inside, rfl⟩ := List.mem_map.mp member
    rw [keeps, next]
    exact sound.ids r inside
  · intro s member runs
    obtain ⟨r, inside, rfl⟩ := List.mem_map.mp member
    by_cases ended : r.due t.vclockNs
    · rw [Row.expire, if_pos ended]
      exact ⟨rfl, rfl⟩
    · rw [Row.expire, if_neg ended] at runs ⊢
      exact sound.unmarked r inside runs
  · intro v2 s member
    rw [spec] at v2
    obtain ⟨r, inside, rfl⟩ := List.mem_map.mp member
    unfold Row.expire
    split
    · rfl
    · exact sound.untimed v2 r inside
  · intro s member ends
    obtain ⟨r, inside, rfl⟩ := List.mem_map.mp member
    rw [keeps] at ends
    obtain ⟨waits, quiet⟩ := sound.gone r inside ends
    have early : r.due t.vclockNs = false := by simp [Row.due, due, quiet]
    rw [Row.expire, if_neg (by simp [early])]
    exact ⟨waits, quiet⟩
  · rw [expired.futicies]
    split
    · exact (sound.holds.without _).congr fun y => (waits y).symm
    · rename_i none_
      refine sound.holds.congr fun y => ?_
      rw [waits]
      refine ⟨fun queued => ⟨queued, ?_⟩, And.left⟩
      simp only [Bool.not_eq_true, List.any_eq_false] at none_
      simp only [dueTid, List.any_eq_false]
      exact fun r member => by simp [none_ r member]

end Threads.Sound

end Sound

end MiniBox
