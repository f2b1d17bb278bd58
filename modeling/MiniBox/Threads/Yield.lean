import MiniBox.Lib.RoundRobin
import MiniBox.Threads.Time

/-!
# Yielding goes around

A stretch of a run in which the running thread only yields.  No thread stops being runnable in
it, and a clock that a yield moves may make others runnable.  Each yield takes the nearest thread
above that can run, and from the highest goes on with the lowest, so the turns go around the ids.

Nothing is asked of the set but that the threads stand in the order of their ids and that the
running one can run.
-/

namespace MiniBox

open Lib

/-- A thread that can run. -/
def Threads.Ready (t : Threads) (tid : UInt32) : Prop :=
  ∃ g ∈ t.threads, g.tid = tid ∧ g.state = .runnable

/-- The threads stand in the order of their ids. -/
def Threads.Ordered (t : Threads) : Prop := t.threads.Pairwise fun g h => g.tid ≤ h.tid

/-- The same threads, and those that could run still can. -/
structure Threads.Keeps (t t' : Threads) : Prop where
  tids : t'.threads.map GThread.tid = t.threads.map GThread.tid
  ready : ∀ tid, t.Ready tid → t'.Ready tid

section Keeps

variable {t t' t'' : Threads}

namespace Threads.Keeps

theorem refl (t : Threads) : t.Keeps t := ⟨rfl, fun _ => id⟩

theorem trans (first : t.Keeps t') (second : t'.Keeps t'') : t.Keeps t'' :=
  ⟨second.tids.trans first.tids, fun tid can => second.ready tid (first.ready tid can)⟩

theorem ordered (keeps : t.Keeps t') (ordered : t.Ordered) : t'.Ordered := by
  have by_tid : ∀ u : Threads, u.Ordered ↔ (u.threads.map GThread.tid).Pairwise (· ≤ ·) :=
      fun u => by
    rw [List.pairwise_map]
    rfl
  rw [by_tid] at ordered ⊢
  rwa [keeps.tids]

/-- One thread changed, which is runnable after it or was not before. -/
theorem modify {i : Nat} {f : GThread → GThread} (tid : ∀ g, (f g).tid = g.tid)
    (state : ∀ g, g.state = .runnable → (f g).state = .runnable)
    (same : t'.threads = t.threads.modify i f) : t.Keeps t' := by
  refine ⟨?_, fun k can => ?_⟩
  · rw [same]
    exact map_modify_self tid _ _
  · unfold Ready
    rw [same]
    refine exists_mem_modify (fun g both => ?_) can
    exact ⟨(tid g).trans both.1, state g both.2⟩

theorem store (t : Threads) (c : Context) (ret : UInt64) : t.Keeps (t.store c ret) :=
  .modify (i := t.threadIndex t.activeTid)
    (f := fun g => { g with rax := ret, rsp := c.guestRsp, threadArea := c.threadArea })
    (fun _ => rfl) (fun _ can => can) rfl

theorem expireAt (t : Threads) (i : Nat) :
    t.Keeps (t.expireAt i) ∧ (t.expireAt i).activeTid = t.activeTid := by
  unfold Threads.expireAt
  split
  · exact ⟨.refl t, rfl⟩
  · exact ⟨.modify (f := GThread.timedOut) (fun _ => rfl) (fun _ _ => rfl) rfl, rfl⟩

theorem expireSteps : ∀ (fuel : Nat) (t : Threads),
    t.Keeps (Threads.expireSteps fuel t) ∧ (Threads.expireSteps fuel t).activeTid = t.activeTid
  | 0, t => ⟨.refl t, rfl⟩
  | fuel + 1, t => by
    rw [Threads.expireSteps]
    split
    · exact ⟨.refl t, rfl⟩
    next i _ =>
      obtain ⟨one, active⟩ := Threads.Keeps.expireAt t i
      obtain ⟨rest, active'⟩ := Threads.Keeps.expireSteps fuel (t.expireAt i)
      exact ⟨one.trans rest, active'.trans active⟩

theorem advance (t : Threads) (ns : UInt64) :
    t.Keeps (t.advance ns) ∧ (t.advance ns).activeTid = t.activeTid := by
  obtain ⟨keeps, active⟩ := Keeps.expireSteps t.threads.length
    { t with vclockNs := t.nsAdd t.vclockNs ns }
  exact ⟨⟨keeps.tids, keeps.ready⟩, active⟩

end Threads.Keeps

end Keeps

/-! ## The nearest thread that can run -/

section Nearest

variable {t : Threads} {best : UInt32}

/-- The first that passes a test, in order, is the lowest that does. -/
theorem Threads.Ordered.find_le (ordered : t.Ordered) {p : GThread → Bool} {g : GThread}
    (found : t.threads.find? p = some g) {h : GThread} (member : h ∈ t.threads)
    (passes : p h = true) :
    g.tid ≤ h.tid := by
  obtain ⟨-, before, after, split_, none_⟩ := List.find?_eq_some_iff_append.mp found
  unfold Ordered at ordered
  rw [split_] at ordered member
  rcases List.mem_append.mp member with early | late
  · exact absurd passes (by simpa using none_ h early)
  · rcases List.mem_cons.mp late with rfl | later
    · exact UInt32.le_refl _
    · exact (List.pairwise_cons.mp (List.pairwise_append.mp ordered).2.1).1 h later

theorem Threads.Ordered.nearest (ordered : t.Ordered) (next : t.nextRunnable = some best) :
    Nearest (2 ^ 32) (fun y => t.Ready (UInt32.ofNat y)) t.activeTid.toNat best.toNat := by
  rintro y inside ⟨h, member, here, can⟩
  have same : h.tid.toNat = y := by
    rw [here]
    exact UInt32.toNat_ofNat_of_lt' inside
  have small := best.toNat_lt
  rw [← same]
  unfold nextRunnable at next
  unfold stride
  split at next
  next g found =>
    cases next
    have above : t.activeTid < g.tid ∧ g.state = .runnable := by simpa using List.find?_some found
    have up := UInt32.lt_iff_toNat_lt.mp above.1
    rw [if_pos up]
    by_cases higher : t.activeTid < h.tid
    · have least := UInt32.le_iff_toNat_le.mp
        (ordered.find_le found member (by simpa using ⟨higher, can⟩))
      rw [if_pos (UInt32.lt_iff_toNat_lt.mp higher)]
      omega
    · rw [if_neg fun up => higher (UInt32.lt_iff_toNat_lt.mpr up)]
      omega
  next none_ =>
    obtain ⟨g, found, rfl⟩ := Option.map_eq_some_iff.mp next
    have lower : ∀ q ∈ t.threads, q.state = .runnable → q.tid.toNat ≤ t.activeTid.toNat := by
      intro q among runs
      refine Nat.not_lt.mp fun up => ?_
      have fails := List.find?_eq_none.mp none_ q among
      exact fails (by simpa using ⟨UInt32.lt_iff_toNat_lt.mpr up, runs⟩)
    have runs : g.state = .runnable := by simpa using List.find?_some found
    have low := lower g (List.mem_of_find?_eq_some found) runs
    have low' := lower h member can
    have least := UInt32.le_iff_toNat_le.mp (ordered.find_le found member (by simpa using can))
    rw [if_neg (by omega), if_neg (by omega)]
    omega

end Nearest

/-! ## One yield -/

section Yield

variable {M : Type} {m m' : Machine M} {w : UInt64}

/-- What a yield comes to: the nearest thread that can run, once the clock has moved. -/
structure Threads.Turn (t t' : Threads) : Prop where
  keeps : t.Keeps t'
  nearest : t.Ordered →
    Nearest (2 ^ 32) (fun y => t.Ready (UInt32.ofNat y)) t.activeTid.toNat t'.activeTid.toNat
  runs : t'.Ready t'.activeTid

theorem Threads.Ready.next {t : Threads} {tid : UInt32} (ready : t.Ready tid) :
    ∃ best, t.nextRunnable = some best := by
  obtain ⟨g, member, -, can⟩ := ready
  cases next : t.nextRunnable with
  | none => exact absurd can (nextRunnable_eq_none.mp next g member)
  | some best => exact ⟨best, rfl⟩

/-- The thread that was chosen runs. -/
theorem Threads.chosen_active (t : Threads) (c : Context) (best : UInt32) (ret : UInt64) :
    (t.chosen c best ret).activeTid = best ∧ t.Keeps (t.chosen c best ret) := by
  unfold chosen
  split
  next same => exact ⟨same.symm, .refl t⟩
  · exact ⟨rfl, ⟨(Keeps.store t c ret).tids, (Keeps.store t c ret).ready⟩⟩

/-- A thread that can run yields to the nearest one, which may be itself. -/
theorem Threads.Ready.swapToNext {t : Threads} (running : t.Ready t.activeTid) (c : Context)
    (ret : UInt64) : ∃ w t' c', t.swapToNext c ret = .ok (w, t', c') ∧ t.Turn t' := by
  have stored := Keeps.store t c ret
  have running' : (t.store c ret).Ready (t.store c ret).activeTid := stored.ready _ running
  obtain ⟨best, next⟩ := running'.next
  obtain ⟨g, member, here, -⟩ := running'
  obtain ⟨w, c', ran⟩ := swapLoop_runs next ⟨g, member, here⟩ t.threads.length c ret
  obtain ⟨active, chosen⟩ := (t.store c ret).chosen_active c best ret
  refine ⟨w, _, c', ran, stored.trans chosen, fun ordered => ?_, ?_⟩
  · rw [active]
    have near := (stored.ordered ordered).nearest next
    exact fun y inside can => near y inside (stored.ready _ can)
  · rw [active]
    obtain ⟨g, member, here, can⟩ := nextRunnable_mem next
    exact chosen.ready best ⟨g, member, here, can⟩

/-- `sched_yield` always answers, and is a turn. -/
theorem Machine.schedYield_turn (running : m.threads.Ready m.threads.activeTid) :
    ∃ w m', m.schedYield = .ok (w, m') ∧ m.threads.Turn m'.threads := by
  unfold schedYield
  dsimp only
  split
  · obtain ⟨keeps, active⟩ := Threads.Keeps.advance m.threads Threads.tickNs
    have running' := keeps.ready _ running
    rw [← active] at running'
    obtain ⟨w, t', c', ran, turn⟩ := running'.swapToNext m.context (sok 0)
    refine ⟨w, ⟨t', c', m.memory⟩, ?_, keeps.trans turn.keeps, fun ordered => ?_, turn.runs⟩
    · unfold yield yieldValue
      rw [ran]
      rfl
    · have near := turn.nearest (keeps.ordered ordered)
      rw [active] at near
      exact fun y inside can => near y inside (keeps.ready _ can)
  · obtain ⟨w, t', c', ran, turn⟩ := running.swapToNext m.context (sok 0)
    refine ⟨w, ⟨t', c', m.memory⟩, ?_, turn⟩
    unfold yield yieldValue
    rw [ran]
    rfl

end Yield

/-! ## A stretch of yields -/

/-- The set before each of `n` yields and after the last, whatever the threads do to memory and
to their own registers in between. -/
def Threads.Stretch (M : Type) (t : Nat → Threads) (n : Nat) : Prop :=
  ∀ k < n, ∃ c, ∃ memory : M, ∃ w m', Machine.schedYield ⟨t k, c, memory⟩ = .ok (w, m') ∧
    m'.threads = t (k + 1)

section Stretch

variable {M : Type} {t : Nat → Threads} {n : Nat}

namespace Threads.Stretch

theorem turn (stretch : Stretch M t n) {k : Nat} (inside : k < n)
    (running : (t k).Ready (t k).activeTid) : (t k).Turn (t (k + 1)) := by
  obtain ⟨c, memory, w, m', ran, same⟩ := stretch k inside
  obtain ⟨w', m'', ran', turn⟩ := @Machine.schedYield_turn M ⟨t k, c, memory⟩ running
  rw [ran] at ran'
  cases ran'
  rw [← same]
  exact turn

theorem running (stretch : Stretch M t n)
    (running : (t 0).Ready (t 0).activeTid) : ∀ {k : Nat}, k ≤ n → (t k).Ready (t k).activeTid
  | 0, _ => running
  | _ + 1, inside => (stretch.turn inside (stretch.running running (Nat.le_of_lt inside))).runs

theorem ordered (stretch : Stretch M t n)
    (running : (t 0).Ready (t 0).activeTid) (ordered : (t 0).Ordered) :
    ∀ {k : Nat}, k ≤ n → (t k).Ordered
  | 0, _ => ordered
  | _ + 1, inside =>
    (stretch.turn inside (stretch.running running (Nat.le_of_lt inside))).keeps.ordered
      (stretch.ordered running ordered (Nat.le_of_lt inside))

/-- Who could run at some point can run from then on. -/
theorem ready (stretch : Stretch M t n)
    (running : (t 0).Ready (t 0).activeTid) {i : Nat} {tid : UInt32} (ready : (t i).Ready tid) :
    ∀ {k : Nat}, i ≤ k → k ≤ n → (t k).Ready tid := by
  intro k from_
  induction k with
  | zero =>
    intro _
    obtain rfl : i = 0 := by omega
    exact ready
  | succ k induction =>
    intro inside
    by_cases here : i = k + 1
    · exact here ▸ ready
    · have turn := stretch.turn inside (stretch.running running (by omega))
      exact turn.keeps.ready tid (induction (by omega) (by omega))

/-- From one turn of a thread to its next, the turns are a round of the ids. -/
theorem round (stretch : Stretch M t n) (ordered : (t 0).Ordered)
    (running : (t 0).Ready (t 0).activeTid) {i j : Nat} (less : i < j) (inside : j ≤ n) {x : UInt32}
    (first : (t i).activeTid = x) (last : (t j).activeTid = x)
    (between : ∀ k, i < k → k < j → (t k).activeTid ≠ x) :
    Round (2 ^ 32) (fun k => (t k).activeTid.toNat)
    (fun k y => (t k).Ready (UInt32.ofNat y)) x.toNat
      i j where
  inside _ _ _ := UInt32.toNat_lt _
  nearest k _ until_ := by
    have running := stretch.running running (k := k) (by omega)
    exact (stretch.turn (by omega) running).nearest (stretch.ordered ‹_› ordered (by omega))
  steady k from_ until_ := by
    have at_first : (t i).Ready x := first ▸ stretch.running running (by omega)
    rw [UInt32.ofNat_toNat]
    exact stretch.ready running at_first from_ (by omega)
  less := less
  first := congrArg UInt32.toNat first
  last := congrArg UInt32.toNat last
  between k from_ until_ same := between k from_ until_ (UInt32.toNat_inj.mp same)

end Threads.Stretch

theorem ahead_toNat (x a : UInt32) : ahead (2 ^ 32) x.toNat a.toNat = (a - x).toNat := by
  have := x.toNat_lt
  have := a.toNat_lt
  rw [UInt32.toNat_sub, ahead]
  split <;> omega

/-- Between two consecutive turns of a thread, every other thread that could run throughout has
exactly one, and the turns go up around the ids. -/
theorem Threads.Stretch.roundRobin (stretch : Stretch M t n) (ordered : (t 0).Ordered)
    (running : (t 0).Ready (t 0).activeTid) {i j : Nat} (less : i < j) (inside : j ≤ n) {x : UInt32}
    (first : (t i).activeTid = x) (last : (t j).activeTid = x)
    (between : ∀ k, i < k → k < j → (t k).activeTid ≠ x) :
    (∀ y, y ≠ x → (∀ k, i ≤ k → k ≤ j → (t k).Ready y) →
        ∃! k, (i < k ∧ k < j) ∧ (t k).activeTid = y) ∧
      ∀ k l, i ≤ k → k < l → l < j →
        ((t k).activeTid - x).toNat < ((t l).activeTid - x).toNat := by
  have round := stretch.round ordered running less inside first last between
  refine ⟨fun y other waits => ?_, fun k l from_ up until_ => ?_⟩
  · have visits := round.visits y.toNat_lt (fun same => other (UInt32.toNat_inj.mp same))
      fun k from_ until_ => by
        rw [UInt32.ofNat_toNat]
        exact waits k from_ (Nat.le_of_lt until_)
    simpa only [UInt32.toNat_inj] using visits
  · rw [← ahead_toNat, ← ahead_toNat]
    exact round.ascends from_ up until_

end Stretch

/-- Three threads that can run, with thread `active` running. -/
def Threads.three (active : UInt32) : Threads where
  nextTid := 4
  activeTid := active
  threads := [{ tid := 1 }, { tid := 2 }, { tid := 3 }]
  futicies := []
  spec := 3
  vclockNs := 0
  deadlines := [0, 0, 0]
  seqs := [0, 0, 0]
  parkSeq := 0
  kitRevision := 2

/-- From 2 to 2 again, thread 1 has one turn. -/
theorem Threads.Stretch.roundRobin_three :
    ∃! k, (0 < k ∧ k < 3) ∧ (three ([2, 3, 1, 2].getD k 0)).activeTid = 1 := by
  have stretch : Stretch Unit (fun k => three ([2, 3, 1, 2].getD k 0)) 3 := by
    intro k inside
    refine ⟨⟨0, 0, 0, 0⟩, (), 0, ⟨_, ⟨0, 0, 0, 0⟩, ()⟩, ?_, rfl⟩
    obtain rfl | rfl | rfl : k = 0 ∨ k = 1 ∨ k = 2 := by omega
    · rfl
    · rfl
    · rfl
  have ready : ∀ active, (three active).Ready 1 := fun _ => ⟨{ tid := 1 }, .head _, rfl, rfl⟩
  have running : (three 2).Ready 2 := ⟨{ tid := 2 }, .tail _ (.head _), rfl, rfl⟩
  have ordered : (three 2).Ordered := by
    unfold Ordered
    decide
  have between : ∀ k, 0 < k → k < 3 → (three ([2, 3, 1, 2].getD k 0)).activeTid ≠ 2 :=
    fun k after before => by
      obtain rfl | rfl : k = 1 ∨ k = 2 := by omega
      · decide
      · decide
  have both := @Stretch.roundRobin Unit _ 3 stretch ordered running 0 3 (by decide)
    (Nat.le_refl 3) 2 rfl rfl between
  exact both.1 1 (by decide) fun _ _ _ => ready _

end MiniBox
