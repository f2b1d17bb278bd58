import MiniBox.Threads.Sound

/-!
# What an operation keeps

`Threads.Good` is the invariant between operations: the set is sound, nobody is on the way
out, and the active thread can run.  The scheduler leaves a good set whenever it answers,
and every operation that does not end the guest leads from a good set to a good set.  Those
who wait on an address and still do keep their order, with the ones that came behind them.
-/

namespace MiniBox

open Lib

/-- The active thread can run. -/
def Threads.Runs (t : Threads) (rows : List Row) : Prop :=
  ∃ r ∈ rows, r.tid = t.activeTid ∧ r.thread.state = .runnable

def Threads.Good (t : Threads) : Prop := ∃ rows, t.Sound rows none ∧ t.Runs rows

/-- A good set reached from another, with the queues in order. -/
def Threads.Leads (t t' : Threads) : Prop := t'.Good ∧ ∀ a, Behind (t.waiters a) (t'.waiters a)

section Steps

variable {t t' : Threads} {rows : List Row} {away : Option UInt32} {tid : UInt32} {c c' : Context}
  {ret rax addr source target : UInt64} {s : Threads} {rest : List UInt32} {wake : Nat}

namespace Threads

/-- The invariant reads the arrays, the queues, the next id and the spec. -/
theorem Sound.same (sound : t.Sound rows away) (threads : t'.threads = t.threads)
    (deadlines : t'.deadlines = t.deadlines) (seqs : t'.seqs = t.seqs)
    (futicies : t'.futicies = t.futicies) (spec : t'.spec = t.spec)
    (next : t'.nextTid = t.nextTid) : t'.Sound rows away where
  lists := ⟨threads.trans sound.lists.threads, deadlines.trans sound.lists.deadlines,
    seqs.trans sound.lists.seqs⟩
  sorted := sound.sorted
  ids := next ▸ sound.ids
  unmarked := sound.unmarked
  untimed := fun v2 => sound.untimed (spec ▸ v2)
  gone := sound.gone
  holds := futicies.symm ▸ sound.holds

theorem Runs.mem (lists : t.Lists rows) {g : GThread} (member : g ∈ t.threads)
    (id_ : g.tid = tid) (runs : g.state = .runnable) :
    ∃ r ∈ rows, r.tid = tid ∧ r.thread.state = .runnable := by
  rw [lists.threads] at member
  obtain ⟨r, inside, rfl⟩ := List.mem_map.mp member
  exact ⟨r, inside, id_, runs⟩

/-! ## Expiry -/

theorem Sound.expireDue_waiters (sound : t.Sound rows away) (a : UInt64) :
    ∃ keep, t.expireDue.waiters a = (t.waiters a).filter keep := by
  have queues := sound.lists.expireDue.futicies
  unfold waiters
  rw [queues]
  split
  · exact ⟨_, Queues.queued_without _ a sound.holds.tidy.distinct⟩
  · exact ⟨fun _ => true, by simp⟩

theorem Sound.advance (sound : t.Sound rows away) (ns : UInt64) :
    (t.advance ns).Sound (rows.map (Row.expire (t.nsAdd t.vclockNs ns))) away :=
  Sound.expireDue (t := { t with vclockNs := t.nsAdd t.vclockNs ns })
    (sound.same rfl rfl rfl rfl rfl rfl)

/-! ## Scheduling -/

theorem store_sound (sound : t.Sound rows away) (c : Context) (ret : UInt64) :
    ∃ rows', (t.store c ret).Sound rows' away ∧
      ∀ r ∈ rows, ∃ r' ∈ rows', r'.tid = r.tid ∧ r'.thread.state = r.thread.state := by
  refine ⟨_, sound.touch t.activeTid (fun _ => rfl) (fun _ => rfl), ?_⟩
  intro r member
  refine ⟨_, List.mem_map_of_mem member, ?_⟩
  unfold Row.on
  split
  · exact ⟨rfl, rfl⟩
  · exact ⟨rfl, rfl⟩

theorem nextRunnable_mem {best : UInt32} (next : t.nextRunnable = some best) :
    ∃ g ∈ t.threads, g.tid = best ∧ g.state = .runnable := by
  unfold nextRunnable at next
  split at next
  · rename_i g above
    cases next
    have both := List.find?_some above
    simp only [Bool.and_eq_true, beq_iff_eq] at both
    exact ⟨g, List.mem_of_find?_eq_some above, rfl, both.2⟩
  · obtain ⟨g, first, rfl⟩ := Option.map_eq_some_iff.mp next
    exact ⟨g, List.mem_of_find?_eq_some first, rfl, by simpa using List.find?_some first⟩

theorem swapTo_eq (ran : t.swapTo c tid ret = .ok (rax, t', c')) :
    t' = { t.store c ret with activeTid := tid } := by
  unfold swapTo at ran
  split at ran
  · cases ran
    rfl
  · cases ran

/-- A switch to a thread that can run. -/
theorem Sound.swapTo (sound : t.Sound rows away)
    (runs : ∃ r ∈ rows, r.tid = tid ∧ r.thread.state = .runnable)
    (ran : t.swapTo c tid ret = .ok (rax, t', c')) :
    (∃ rows', t'.Sound rows' away ∧ t'.Runs rows') ∧ ∀ a, t'.waiters a = t.waiters a := by
  obtain ⟨rows', kept, states⟩ := store_sound sound c ret
  rw [swapTo_eq ran]
  refine ⟨⟨rows', kept.same rfl rfl rfl rfl rfl rfl, ?_⟩, fun _ => rfl⟩
  obtain ⟨r, member, here, can⟩ := runs
  obtain ⟨r', inside, id_, state⟩ := states r member
  exact ⟨r', inside, id_.trans here, state.trans can⟩

/-- The loop of `swap_to_next`: at each turn the set is sound, and those who leave a queue
leave the order of the others. -/
theorem Sound.swapLoop : ∀ {fuel : Nat} {t : Threads} {rows : List Row} {c : Context}
    {ret : UInt64} {rax : UInt64} {c' : Context}, t.Sound rows away →
    Threads.swapLoop fuel t c ret = .ok (rax, t', c') →
    (∃ rows', t'.Sound rows' away ∧ t'.Runs rows') ∧
      ∀ a, ∃ keep, t'.waiters a = (t.waiters a).filter keep
  | 0, _, _, _, _, _, _, _, ran => by cases ran
  | fuel + 1, t, rows, c, ret, rax, c', sound, ran => by
    rw [Threads.swapLoop] at ran
    split at ran
    · cases ran
    · rename_i best old next found
      obtain ⟨g, member, here, can⟩ := Threads.nextRunnable_mem next
      have runs := Threads.Runs.mem sound.lists member here can
      split at ran
      · rename_i same
        cases ran
        rw [same] at runs
        exact ⟨⟨rows, sound, runs⟩, fun a => ⟨fun _ => true, by simp⟩⟩
      · obtain ⟨kept, queues⟩ := sound.swapTo runs ran
        exact ⟨kept, fun a => ⟨fun _ => true, by rw [queues]; simp⟩⟩
    · split at ran
      · simp only at ran
        split at ran
        · cases ran
        · have moved : Threads.Sound { t with vclockNs := t.earliest } rows away :=
            sound.same rfl rfl rfl rfl rfl rfl
          obtain ⟨kept, queues⟩ := swapLoop moved.expireDue ran
          refine ⟨kept, fun a => ?_⟩
          obtain ⟨keep, last⟩ := queues a
          obtain ⟨keep', first⟩ := moved.expireDue_waiters a
          refine ⟨fun x => keep' x && keep x, ?_⟩
          rw [last, first, List.filter_filter]
          exact List.filter_congr fun x _ => Bool.and_comm _ _
      · cases ran

theorem Sound.swapToNext (sound : t.Sound rows away)
    (ran : t.swapToNext c ret = .ok (rax, t', c')) :
    (∃ rows', t'.Sound rows' away ∧ t'.Runs rows') ∧
      ∀ a, ∃ keep, t'.waiters a = (t.waiters a).filter keep := by
  obtain ⟨rows', kept, -⟩ := store_sound sound c ret
  exact kept.swapLoop ran

/-- A switch after a change that leaves the queues in order. -/
theorem Sound.leads (sound : s.Sound rows none)
    (behind : ∀ a, Behind (t.waiters a) (s.waiters a))
    (ran : s.swapToNext c ret = .ok (rax, t', c')) : t.Leads t' := by
  obtain ⟨good, queues⟩ := sound.swapToNext ran
  refine ⟨good, fun a => ?_⟩
  obtain ⟨keep, last⟩ := queues a
  rw [last]
  exact (behind a).filter keep

/-! ## Waking -/

section

variable (sound : t.Sound rows away)
include sound

theorem Sound.isWaiting (member : tid ∈ t.waiters addr) : t.isWaiting tid = true := by
  obtain ⟨-, r, inside, rfl, waits⟩ := (sound.holds.mem tid).mp ⟨addr, member⟩
  rw [Threads.isWaiting, sound.lists.findThread sound.sorted inside]
  simp [waits]

/-- `unpark_one` wakes the first in the queue; no entry is passed over. -/
theorem Sound.unparkOne (addr : UInt64) : (t.waiters addr = [] ∧ t.unparkOne addr = (none, t)) ∨
      ∃ tid rest, t.waiters addr = tid :: rest ∧ t.unparkOne addr =
        (some (tid, !rest.isEmpty), { t.wake tid with futicies := t.futicies.put addr rest }) := by
  cases queue : t.waiters addr with
  | nil =>
    refine .inl ⟨rfl, ?_⟩
    rw [Threads.unparkOne, queue, List.dropWhile_nil]
    simp only [Queues.put_of_queued_nil sound.holds.tidy.filled queue]
  | cons tid rest =>
    have here : tid ∈ t.waiters addr := by simp [queue]
    have waits := sound.isWaiting here
    refine .inr ⟨tid, rest, rfl, ?_⟩
    rw [Threads.unparkOne, queue, List.dropWhile_cons, if_neg (by simp [waits])]

/-- The queues after the first at an address is woken. -/
theorem Sound.wake_waiters (head : t.waiters addr = tid :: rest) (a : UInt64) :
    waiters { t.wake tid with futicies := t.futicies.put addr rest } a =
      if a = addr then rest else t.waiters a :=
  Queues.queued_put_rest sound.holds.tidy head a

theorem Sound.wake_behind (head : t.waiters addr = tid :: rest) (a : UInt64) : Behind (t.waiters a)
      (waiters { t.wake tid with futicies := t.futicies.put addr rest } a) := by
  rw [sound.wake_waiters head]
  split
  · rename_i same
    have dropped := Behind.drop (sound.holds.nodup a) 1
    subst same
    show Behind (t.waiters a) rest
    rw [show rest = (t.waiters a).drop 1 by rw [head]; rfl]
    exact dropped
  · exact .refl _

theorem Sound.onThread_threads (tid : UInt32) (f : GThread → GThread) :
    (t.onThread tid f).threads = t.threads.map fun g => if g.tid = tid then f g else g := by
  have distinct : (t.threads.map GThread.tid).Nodup := by
    rw [sound.lists.threads, List.map_map]
    exact sound.sorted.nodup
  exact modify_findIdx tid f distinct

end

theorem Runs.on (runs : t.Runs rows) (other : tid ≠ t.activeTid) {f : Row → Row} :
    t.Runs (rows.map (Row.on tid f)) := by
  obtain ⟨r, member, here, can⟩ := runs
  exact ⟨r, mem_map_on.mpr (.inr ⟨member, fun same => other (same.symm.trans here)⟩), here, can⟩

/-- The active thread is in no queue. -/
theorem Sound.not_active (sound : t.Sound rows away) (runs : t.Runs rows)
    (member : tid ∈ t.waiters addr) : tid ≠ t.activeTid := by
  obtain ⟨-, s, inside, rfl, waits⟩ := (sound.holds.mem tid).mp ⟨addr, member⟩
  obtain ⟨r, active, here, can⟩ := runs
  intro same
  rw [sound.sorted.unique inside active (same.trans here.symm), can] at waits
  cases waits

/-! ## Requeueing -/

/-- What `left` turns of the loop of `mb_threads_futex_requeue` do: the first `wake` that
wait on `source` are woken, the ones after them go behind those that wait on `target`. -/
structure Requeued (source target : UInt64) (left wake : Nat) (t : Threads) (count : Nat)
    (t' : Threads) : Prop where
  good : t'.Good
  active : t'.activeTid = t.activeTid
  count_eq : count = min left (t.waiters source).length
  waiters : ∀ a, t'.waiters a =
    if a = source then (t.waiters a).drop count
    else if a = target then t.waiters a ++ ((t.waiters source).take count).drop wake
    else t.waiters a
  threads : t'.threads = t.threads.map fun g =>
    if g.tid ∈ ((t.waiters source).take count).take wake then { g with state := .runnable } else g

/-- One turn that wakes. -/
theorem Sound.wake_turn (sound : t.Sound rows none) (runs : t.Runs rows)
    (head : t.waiters source = tid :: rest) (some_ : wake ≠ 0) (target : UInt64) :
    Requeued source target 1 wake t 1
      { t.wake tid with futicies := t.futicies.put source rest } := by
  have here : tid ∈ t.waiters source := by simp [head]
  have other := sound.not_active runs here
  have first : ((t.waiters source).take 1).take wake = [tid] := by
    rw [head]
    cases wake with
    | zero => exact absurd rfl some_
    | succ wake => simp
  refine ⟨⟨_, sound.wake head, runs.on other⟩, rfl, ?_, fun a => ?_, ?_⟩
  · simp [head]
  · rw [sound.wake_waiters head]
    by_cases here : a = source
    · simp [here, head]
    · have none_ : ((t.waiters source).take 1).drop wake = [] := by
        rw [head]
        cases wake with
        | zero => exact absurd rfl some_
        | succ wake => simp
      simp [here, none_]
  · have threads := sound.onThread_threads tid fun g => { g with state := .runnable }
    rw [first]
    simp only [List.mem_singleton]
    exact threads

/-- The first that waits at `source` put behind those at `target`, which may be its own
address: its row is as it was, its deadline apart. -/
theorem Sound.move (sound : t.Sound rows none) (runs : t.Runs rows)
    (head : t.waiters source = tid :: rest) (target : UInt64) :
    let t' := Threads.park { t.wake tid with futicies := t.futicies.put source rest } target tid
    t'.Good ∧ t'.threads = t.threads ∧ ∀ a, t'.waiters a =
      (if a = source then rest else t.waiters a) ++ if a = target then [tid] else [] := by
  have here : tid ∈ t.waiters source := by simp [head]
  have other := sound.not_active runs here
  have woken := sound.wake head
  obtain ⟨-, r, member, rfl, waits⟩ := (sound.holds.mem tid).mp ⟨source, here⟩
  have inside : r.marked .runnable 0 0 ∈ rows.map (Row.on r.tid (Row.marked .runnable 0 0)) :=
    mem_map_on.mpr (.inl ⟨r, member, rfl, rfl⟩)
  have parked := woken.park inside rfl target
  refine ⟨⟨_, parked, (runs.on other).on other⟩, ?_, fun a => ?_⟩
  · have first := sound.onThread_threads r.tid fun g => { g with state := .runnable }
    have second := woken.onThread_threads r.tid fun g => { g with state := .waiting }
    refine second.trans ?_
    show (t.onThread r.tid _).threads.map _ = _
    rw [first, List.map_map]
    refine (List.map_congr_left fun g inside => ?_).trans (List.map_id _)
    by_cases here : g.tid = r.tid
    · have same : g = r.thread := by
        rw [sound.lists.threads] at inside
        obtain ⟨s, among, rfl⟩ := List.mem_map.mp inside
        rw [sound.sorted.unique among member here]
      rw [same]
      simp [← waits]
    · simp [here]
  · have queue := Queues.queued_extend target [r.tid] a (t.futicies.put source rest)
    have left := sound.wake_waiters head a
    show Queues.queued _ a = _
    rw [Threads.park, queue]
    change Queues.queued _ a = _ at left
    rw [left]
    split <;> simp

/-- One turn that moves a waiter to another address. -/
theorem Sound.move_turn (sound : t.Sound rows none) (runs : t.Runs rows)
    (apart : source ≠ target) (head : t.waiters source = tid :: rest) :
    Threads.Requeued source target 1 0 t 1
      (Threads.park { t.wake tid with futicies := t.futicies.put source rest } target tid) := by
  obtain ⟨good, threads, queues⟩ := sound.move runs head target
  refine ⟨good, rfl, by simp [head], fun a => ?_, by simp [threads]⟩
  rw [queues]
  by_cases here : a = source
  · have not_ : a ≠ target := fun same => apart (here.symm.trans same)
    rw [if_neg not_, if_pos here, if_pos here, here, head]
    simp
  · rw [if_neg here, if_neg here, head]
    split <;> simp

/-- A turn, and the turns after it. -/
theorem Requeued.trans {left count : Nat} (turn : Requeued source target 1 wake t 1 s)
    (rest : Requeued source target left (wake - 1) s count t') :
    Requeued source target (left + 1) wake t (count + 1) t' := by
  have some_ : 1 ≤ (t.waiters source).length := by
    have one := turn.count_eq
    omega
  obtain ⟨tid, others, head⟩ : ∃ tid others, t.waiters source = tid :: others := by
    cases queue : t.waiters source with
    | nil => rw [queue] at some_; simp at some_
    | cons tid others => exact ⟨tid, others, rfl⟩
  have queue : s.waiters source = others := by
    rw [turn.waiters, if_pos rfl, head]
    rfl
  refine ⟨rest.good, rest.active.trans turn.active, ?_, fun a => ?_, ?_⟩
  · rw [rest.count_eq, queue, head, List.length_cons]
    omega
  · rw [rest.waiters, turn.waiters, queue, head]
    by_cases here : a = source
    · rw [if_pos here, if_pos here, if_pos here, here, head]
      rfl
    · rw [if_neg here, if_neg here, if_neg here]
      by_cases there : a = target
      · rw [if_pos there, if_pos there, if_pos there, List.append_assoc]
        cases wake with
        | zero => simp
        | succ wake => simp
      · rw [if_neg there, if_neg there, if_neg there]
  · rw [rest.threads, turn.threads, queue, head, List.map_map]
    refine List.map_congr_left fun g _ => ?_
    cases wake with
    | zero => simp
    | succ wake =>
      by_cases first : g.tid = tid
      · simp [first]
      · simp [first]

/-- The set after one turn, with `tid` the first in the queue. -/
def turned (t : Threads) (source target : UInt64) (wake : Nat) (tid : UInt32) (rest : List UInt32) :
    Threads :=
  let s := { t.wake tid with futicies := t.futicies.put source rest }
  if wake = 0 then s.park target tid else s

section

variable (sound : t.Sound rows none)
include sound

theorem Sound.turn (runs : t.Runs rows) (apart : source ≠ target ∨ wake ≠ 0)
    (head : t.waiters source = tid :: rest) :
    Threads.Requeued source target 1 wake t 1 (t.turned source target wake tid rest) := by
  unfold turned
  split
  · rename_i zero
    subst zero
    exact sound.move_turn runs (apart.resolve_right fun some_ => some_ rfl) head
  · rename_i some_
    exact sound.wake_turn runs head some_ target

theorem Sound.requeueLoop_nil (none_ : t.waiters source = []) (target : UInt64) (wake : Nat) :
    ∀ left, Threads.requeueLoop source target left wake t = (0, t)
  | 0 => rfl
  | left + 1 => by
    rw [Threads.requeueLoop]
    rcases sound.unparkOne source with ⟨-, answer⟩ | ⟨tid, rest, head, -⟩
    · rw [answer]
    · rw [none_] at head
      cases head

theorem Sound.requeueLoop_head (head : t.waiters source = tid :: rest) (target : UInt64)
    (left wake : Nat) :
    Threads.requeueLoop source target (left + 1) wake t =
      let s := t.turned source target wake tid rest
      if !rest.isEmpty then
        ((Threads.requeueLoop source target left (wake - 1) s).1 + 1,
          (Threads.requeueLoop source target left (wake - 1) s).2)
      else (1, s) := by
  rw [Threads.requeueLoop]
  rcases sound.unparkOne source with ⟨none_, -⟩ | ⟨tid', rest', head', answer⟩
  · rw [none_] at head
    cases head
  · rw [head] at head'
    cases head'
    rw [answer]
    rfl

/-- A turn after which nobody is left to move again is followed by the others. -/
theorem Sound.requeueLoop_cons (runs : t.Runs rows) (apart : source ≠ target ∨ wake ≠ 0)
    (head : t.waiters source = tid :: rest) (left : Nat) :
    Threads.requeueLoop source target (left + 1) wake t =
      let s := t.turned source target wake tid rest
      ((Threads.requeueLoop source target left (wake - 1) s).1 + 1,
        (Threads.requeueLoop source target left (wake - 1) s).2) := by
  have turn := sound.turn runs apart head
  rw [sound.requeueLoop_head head]
  cases rest with
  | nil =>
    obtain ⟨rows', after, -⟩ := turn.good
    have queue := turn.waiters source
    rw [if_pos rfl, head] at queue
    dsimp only
    rw [after.requeueLoop_nil queue]
    rfl
  | cons next others => rfl

end

theorem Sound.requeueLoop :
    ∀ {left wake : Nat} {t : Threads}, t.Good → source ≠ target ∨ left ≤ wake →
      Threads.Requeued source target left wake t (Threads.requeueLoop source target left wake t).1
        (Threads.requeueLoop source target left wake t).2
  | 0, wake, t, good, _ => by
    refine ⟨good, rfl, by simp [Threads.requeueLoop], fun a => ?_, ?_⟩
    · simp [Threads.requeueLoop]
    · simp [Threads.requeueLoop]
  | left + 1, wake, t, ⟨rows, sound, runs⟩, apart => by
    cases queue : t.waiters source with
    | nil =>
      rw [sound.requeueLoop_nil queue]
      refine ⟨⟨rows, sound, runs⟩, rfl, by simp [queue], fun a => ?_, by simp [queue]⟩
      by_cases here : a = source
      · simp [here, queue]
      · simp [here, queue]
    | cons tid rest =>
      have one : source ≠ target ∨ wake ≠ 0 := apart.imp_right fun _ => by omega
      have turn := sound.turn runs one queue
      rw [sound.requeueLoop_cons runs one queue]
      exact turn.trans (requeueLoop turn.good (apart.imp_right fun _ => by omega))

end Threads

end Steps

end MiniBox
