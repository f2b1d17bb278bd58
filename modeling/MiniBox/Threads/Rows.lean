import MiniBox.Lib.Table
import Mathlib.Data.List.InsertIdx
import MiniBox.Threads.Calls

/-!
# Rows of the thread set

The three arrays of a set hold the columns of one table: a row is a thread with its
deadline and its mark.  `Threads.Lists` says the arrays hold the columns of given rows,
which is all it means for them to be aligned, and every change to the arrays is a change
to the rows.

Expiry is the one change that reads the marks, and its outcome does not depend on them:
`expire_due` times out every due row and takes exactly the due threads out of the queues,
whatever the order it takes them in.
-/

namespace MiniBox

open Lib

structure Row where
  thread : GThread
  deadline : UInt64
  seq : UInt64

abbrev Row.tid (r : Row) : UInt32 := r.thread.tid

/-- A thread after a change that keeps its id. -/
theorem Threads.findThread_onThread {f : GThread → GThread} (keeps : ∀ g, (f g).tid = g.tid)
    (t : Threads) (tid : UInt32) :
    (t.onThread tid f).findThread tid = (t.findThread tid).map f :=
  find?_modify_findIdx (fun g => by rw [keeps]) t.threads

/-- The arrays of the set hold the columns of `rows`. -/
structure Threads.Lists (t : Threads) (rows : List Row) : Prop where
  threads : t.threads = rows.map Row.thread
  deadlines : t.deadlines = rows.map Row.deadline
  seqs : t.seqs = rows.map Row.seq

/-- The rows of a set whose arrays have one length. -/
def Threads.rows (t : Threads) : List Row :=
  (t.threads.zip (t.deadlines.zip t.seqs)).map fun r => ⟨r.1, r.2.1, r.2.2⟩

section Lists

variable {t : Threads} {rows : List Row}

theorem Threads.lists_rows (deadlines : t.deadlines.length = t.threads.length)
    (seqs : t.seqs.length = t.threads.length) : t.Lists t.rows := by
  have inner : t.threads.length ≤ (t.deadlines.zip t.seqs).length := by
    rw [List.length_zip]
    omega
  have outer : (t.deadlines.zip t.seqs).length ≤ t.threads.length := by
    rw [List.length_zip]
    omega
  constructor
  · rw [rows, List.map_map]
    exact (List.map_fst_zip inner).symm
  · have column : (t.threads.zip (t.deadlines.zip t.seqs)).map (Prod.fst ∘ Prod.snd) =
        t.deadlines := by
      rw [← List.map_map, List.map_snd_zip outer, List.map_fst_zip (by omega)]
    rw [rows, List.map_map]
    exact column.symm
  · have column : (t.threads.zip (t.deadlines.zip t.seqs)).map (Prod.snd ∘ Prod.snd) = t.seqs := by
      rw [← List.map_map, List.map_snd_zip outer, List.map_snd_zip (by omega)]
    rw [rows, List.map_map]
    exact column.symm

namespace Threads.Lists

theorem deadlines_length (lists : t.Lists rows) : t.deadlines.length = t.threads.length := by
  rw [lists.deadlines, lists.threads, List.length_map, List.length_map]

theorem seqs_length (lists : t.Lists rows) : t.seqs.length = t.threads.length := by
  rw [lists.seqs, lists.threads, List.length_map, List.length_map]

/-! ## Changes to the arrays -/

section

variable (lists : t.Lists rows)
include lists

theorem modify (i : Nat) (f : GThread → GThread) : Lists { t with threads := t.threads.modify i f }
      (rows.modify i fun r => { r with thread := f r.thread }) := by
  constructor
  · show t.threads.modify i f = _
    rw [lists.threads]
    exact (map_modify f (fun _ => by rfl) i rows).symm
  · exact lists.deadlines.trans (map_modify_self (fun _ => by rfl) i rows).symm
  · exact lists.seqs.trans (map_modify_self (fun _ => by rfl) i rows).symm

theorem setDeadline (i : Nat) (deadline seq : UInt64) : (t.setDeadline i deadline seq).Lists
      (rows.modify i fun r => { r with deadline := deadline, seq := seq }) := by
  constructor
  · exact lists.threads.trans (map_modify_self (fun _ => by rfl) i rows).symm
  · show t.deadlines.set i deadline = _
    rw [lists.deadlines]
    exact (map_modify_set deadline (fun _ => by rfl) i rows).symm
  · show t.seqs.set i seq = _
    rw [lists.seqs]
    exact (map_modify_set seq (fun _ => by rfl) i rows).symm

theorem insertThread (g : GThread) :
    (t.insertThread g).Lists (rows.insertIdx (place Row.tid g.tid rows) ⟨g, 0, 0⟩) := by
  have index : t.insertIndex g.tid = place Row.tid g.tid rows := by
    show place GThread.tid g.tid t.threads = _
    rw [lists.threads, place_map]
  rw [← index]
  constructor
  · rw [List.map_insertIdx, ← lists.threads]; rfl
  · rw [List.map_insertIdx, ← lists.deadlines]; rfl
  · rw [List.map_insertIdx, ← lists.seqs]; rfl

theorem threadIndex (tid : UInt32) : t.threadIndex tid = rows.findIdx fun r => r.tid == tid := by
  rw [Threads.threadIndex, lists.threads, List.findIdx_map]
  rfl

theorem removeThread (tid : UInt32) :
    (t.removeThread tid).Lists (rows.eraseIdx (rows.findIdx fun r => r.tid == tid)) := by
  rw [← lists.threadIndex]
  constructor
  · rw [← List.eraseIdx_map, ← lists.threads]; rfl
  · rw [← List.eraseIdx_map, ← lists.deadlines]; rfl
  · rw [← List.eraseIdx_map, ← lists.seqs]; rfl

end

end Threads.Lists

/-! ## Expiry -/

/-- The row's wait is over by `clock`. -/
def Row.due (clock : UInt64) (r : Row) : Bool := Threads.due clock r.thread r.deadline

/-- The row of a wait that timed out. -/
def Row.timedOut (r : Row) : Row := ⟨r.thread.timedOut, 0, 0⟩

def Row.expire (clock : UInt64) (r : Row) : Row := if r.due clock then r.timedOut else r

@[simp] theorem Row.timedOut_due (clock : UInt64) (r : Row) : r.timedOut.due clock = false := rfl

theorem Row.expire_timedOut (clock : UInt64) (r : Row) : r.timedOut.expire clock = r.timedOut := by
  simp [expire]

theorem Threads.Lists.dueAt (lists : t.Lists rows) (i : Nat) : t.dueAt i = match rows[i]? with
      | none => false
      | some r => r.due t.vclockNs := by
  rw [Threads.dueAt, lists.threads, lists.deadlines, List.getElem?_map, List.getElem?_map]
  cases rows[i]? <;> rfl

/-- What the search has found among the first `n` threads. -/
theorem Threads.pickDue_spec (t : Threads) : ∀ n : Nat,
    match (List.range n).foldl
        (fun pick i =>
          if t.dueAt i then
            match pick with
            | none => some i
            | some p => if t.sooner i p then some i else some p
          else pick) none with
    | none => ∀ i < n, t.dueAt i = false
    | some p => t.dueAt p = true
  | 0 => by simp
  | n + 1 => by
    have ih := pickDue_spec t n
    rw [List.range_succ, List.foldl_append, List.foldl_cons, List.foldl_nil]
    revert ih
    generalize (List.range n).foldl _ none = found
    intro ih
    by_cases here : t.dueAt n
    · rw [if_pos here]
      cases found with
      | none => exact here
      | some p =>
        simp only
        split
        · rename_i q same
          split at same <;> cases same
        · rename_i q same
          split at same <;> cases same
          · exact here
          · exact ih
    · rw [if_neg here]
      cases found with
      | none =>
        intro i below
        rcases Nat.lt_succ_iff_lt_or_eq.mp below with less | rfl
        · exact ih i less
        · simpa using here
      | some p => exact ih

theorem Threads.pickDue_some {i : Nat} (pick : t.pickDue = some i) : t.dueAt i = true := by
  have spec : match t.pickDue with
      | none => ∀ i < t.threads.length, t.dueAt i = false
      | some p => t.dueAt p = true := t.pickDue_spec t.threads.length
  rw [pick] at spec
  exact spec

/-- The search finds a due thread, or there is none. -/
theorem Threads.Lists.pickDue (lists : t.Lists rows) :
    match t.pickDue with
    | none => ∀ r ∈ rows, r.due t.vclockNs = false
    | some i => ∃ before r after, rows = before ++ r :: after ∧ i = before.length ∧
        r.due t.vclockNs = true := by
  have spec := t.pickDue_spec t.threads.length
  rw [Threads.pickDue]
  revert spec
  generalize (List.range t.threads.length).foldl _ none = found
  intro spec
  cases found with
  | none =>
    intro r member
    obtain ⟨i, inside, rfl⟩ := List.mem_iff_getElem.mp member
    have at_ := spec i (by rw [lists.threads, List.length_map]; exact inside)
    rw [lists.dueAt, List.getElem?_eq_getElem inside] at at_
    exact at_
  | some i =>
    simp only at spec ⊢
    rw [lists.dueAt] at spec
    cases here : rows[i]? with
    | none => rw [here] at spec; cases spec
    | some r =>
      rw [here] at spec
      obtain ⟨inside, rfl⟩ := List.getElem?_eq_some_iff.mp here
      refine ⟨rows.take i, rows[i], rows.drop (i + 1), ?_, ?_, spec⟩
      · rw [List.getElem_cons_drop, List.take_append_drop]
      · rw [List.length_take]
        omega

/-- The threads `expire_due` takes out of the queues. -/
def dueTid (clock : UInt64) (rows : List Row) (tid : UInt32) : Bool :=
  rows.any fun r => r.due clock && r.tid == tid

/-- What expiry leaves, in rows. -/
structure Threads.Expired (t : Threads) (rows : List Row) (t' : Threads) : Prop where
  lists : t'.Lists (rows.map (Row.expire t.vclockNs))
  futicies : t'.futicies =
    if rows.any (Row.due t.vclockNs) then t.futicies.without (dueTid t.vclockNs rows)
    else t.futicies
  rest : t' = { t with
    threads := t'.threads, deadlines := t'.deadlines, seqs := t'.seqs, futicies := t'.futicies }

/-- What expiry leaves alone. -/
theorem Threads.Expired.keeps {t' : Threads} (expired : t.Expired rows t') :
    t'.activeTid = t.activeTid ∧ t'.vclockNs = t.vclockNs ∧ t'.spec = t.spec ∧
      t'.kitRevision = t.kitRevision := by
  rw [expired.rest]
  exact ⟨rfl, rfl, rfl, rfl⟩

theorem Threads.Expired.of_none (lists : t.Lists rows)
    (none_ : ∀ r ∈ rows, r.due t.vclockNs = false) : Expired t rows t where
  lists := by
    have same : rows.map (Row.expire t.vclockNs) = rows.map id :=
      List.map_congr_left fun r member => by simp [Row.expire, none_ r member]
    rw [same, List.map_id]
    exact lists
  futicies := by
    rw [if_neg]
    simpa using none_
  rest := rfl

theorem Threads.Lists.expireAt {before after : List Row} {r : Row}
    (lists : t.Lists (before ++ r :: after)) :
    (t.expireAt before.length).Lists (before ++ r.timedOut :: after) ∧
      t.expireAt before.length = { t with
        threads := (t.expireAt before.length).threads
        deadlines := (t.expireAt before.length).deadlines
        seqs := (t.expireAt before.length).seqs
        futicies := t.futicies.without (· == r.tid) } := by
  have here : t.threads[before.length]? = some r.thread := by
    rw [lists.threads]
    simp
  rw [Threads.expireAt, here]
  have changed := (lists.modify before.length GThread.timedOut).setDeadline before.length 0 0
  rw [modify_length_append, modify_length_append] at changed
  exact ⟨⟨changed.threads, changed.deadlines, changed.seqs⟩, rfl⟩

theorem dueTid_timedOut (clock : UInt64) (before after : List Row) (r : Row) (tid : UInt32) :
    dueTid clock (before ++ r.timedOut :: after) tid = dueTid clock (before ++ after) tid := by
  simp [dueTid]

/-- The loop of `expire_due` leaves what one pass over the rows leaves. -/
theorem Threads.Lists.expireSteps : ∀ {fuel : Nat} {t : Threads} {rows : List Row}, t.Lists rows →
    rows.countP (Row.due t.vclockNs) ≤ fuel → Threads.Expired t rows (Threads.expireSteps fuel t)
  | 0, t, rows, lists, few => by
    have zero := List.countP_eq_zero.mp (Nat.le_zero.mp few)
    exact .of_none lists fun r member => by simpa using zero r member
  | fuel + 1, t, rows, lists, few => by
    have found := lists.pickDue
    rw [Threads.expireSteps]
    cases pick : t.pickDue with
    | none =>
      rw [pick] at found
      exact .of_none lists found
    | some i =>
      rw [pick] at found
      obtain ⟨before, r, after, rfl, rfl, ended⟩ := found
      obtain ⟨lists', shape⟩ := lists.expireAt
      have clock : (t.expireAt before.length).vclockNs = t.vclockNs := by rw [shape]
      have queues : (t.expireAt before.length).futicies = t.futicies.without (· == r.tid) := by
        rw [shape]
      have fewer : (before ++ r.timedOut :: after).countP
          (Row.due (t.expireAt before.length).vclockNs) ≤ fuel := by
        rw [clock]
        simp only [List.countP_append, List.countP_cons, ended, if_true, Row.timedOut_due,
          Bool.false_eq_true, if_false] at few ⊢
        omega
      have rest := expireSteps lists' fewer
      simp only
      constructor
      · have lists'' := rest.lists
        rw [clock] at lists''
        have same : (before ++ r.timedOut :: after).map (Row.expire t.vclockNs) =
            (before ++ r :: after).map (Row.expire t.vclockNs) := by
          simp only [List.map_append, List.map_cons, Row.expire_timedOut]
          rw [Row.expire, if_pos ended]
        rw [← same]
        exact lists''
      · have both : ∀ tid, (tid == r.tid || dueTid t.vclockNs (before ++ after) tid) =
            dueTid t.vclockNs (before ++ r :: after) tid := fun tid => by
          have swap : (tid == r.tid) = (r.tid == tid) := Bool.beq_comm
          simp only [dueTid, List.any_append, List.any_cons, ended, Bool.true_and, swap]
          cases (r.tid == tid) <;> simp
        have some_ : (before ++ r :: after).any (Row.due t.vclockNs) = true := by
          simp [ended]
        rw [rest.futicies, clock, queues, if_pos some_]
        split
        · rw [Queues.without_without]
          congr 1
          funext tid
          rw [dueTid_timedOut, both]
        · rename_i none_
          congr 1
          funext tid
          rw [← both]
          have none' : dueTid t.vclockNs (before ++ after) tid = false := by
            simp only [List.any_append, List.any_cons, Row.timedOut_due, Bool.false_or,
              Bool.or_eq_true, not_or, Bool.not_eq_true, List.any_eq_false] at none_
            simp only [dueTid, List.any_append, Bool.or_eq_false_iff, List.any_eq_false]
            exact ⟨fun x member => by simp [none_.1 x member],
              fun x member => by simp [none_.2 x member]⟩
          rw [none', Bool.or_false]
      · rw [rest.rest, shape]

theorem Threads.Lists.expireDue (lists : t.Lists rows) : Expired t rows t.expireDue := by
  refine lists.expireSteps ?_
  rw [lists.threads, List.length_map]
  exact List.countP_le_length

end Lists

end MiniBox
