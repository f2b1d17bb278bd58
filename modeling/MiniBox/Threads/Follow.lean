import MiniBox.Threads.Run
import MiniBox.Threads.Time

/-!
# One thread followed

A thread that does not run is changed by others in two ways only: a wake takes it out of
its queue, or the clock passes its deadline.  Neither the scheduler nor any operation but a
requeue does anything else to its row.  `Threads.Fate` names the two and the third
case, that nothing happens to it, and `Threads.Follows` says so of one operation, with what
the operation answers when it is that thread that runs next.
-/

namespace MiniBox

open Lib

theorem Threads.Lists.rows_eq {t : Threads} {rows : List Row} (lists : t.Lists rows) :
    t.rows = rows := by
  rw [Threads.rows, lists.threads, lists.deadlines, lists.seqs, List.zip_map', List.zip_map',
    List.map_map]
  exact List.map_id _

/-- A row with what its thread leaves behind for the next time it runs. -/
def Row.stored (c : Context) (ret : UInt64) : Row → Row :=
  touched fun g => { g with rax := ret, rsp := c.guestRsp, threadArea := c.threadArea }

/-- What becomes of a thread that waits at `addr`, with the row `r`. -/
inductive Threads.Fate (wakes : Prop) (addr : UInt64) (t t' : Threads) (r : Row) : Prop where
  | stays : r ∈ t'.rows → r.tid ∈ t'.waiters addr →
      t'.vclockNs = t.vclockNs ∨ r.due t'.vclockNs = false → Fate wakes addr t t' r
  | woken : wakes → r.marked .runnable 0 0 ∈ t'.rows → t'.vclockNs = t.vclockNs →
      Fate wakes addr t t' r
  | expired : r.timedOut ∈ t'.rows → r.due t'.vclockNs = true → Fate wakes addr t t' r

/-- What a change does to a thread `x` that does not run. -/
structure Threads.Changes (wakes : UInt64 → Prop) (x : UInt32) (t t' : Threads) : Prop where
  runnable : ∀ r ∈ t.rows, r.tid = x → r.thread.state = .runnable → r ∈ t'.rows
  waiting : ∀ r ∈ t.rows, r.tid = x → ∀ addr, x ∈ t.waiters addr →
    Fate (wakes addr) addr t t' r

/-- The same of an operation that answers `w`. -/
structure Threads.Follows (wakes : UInt64 → Prop) (x : UInt32) (t t' : Threads) (w : UInt64) :
    Prop extends Changes wakes x t t' where
  answer : t'.activeTid = x → ∃ r ∈ t'.rows, r.tid = x ∧ r.thread.rax = w

section Follow

variable {t t' s : Threads} {rows : List Row} {away : Option UInt32} {x : UInt32} {w : UInt64}
variable {c c' : Context} {ret : UInt64}

/-! ## The scheduler -/

variable {best : UInt32} {fuel : Nat} {r : Row} {addr : UInt64} {wakes : Prop}

namespace Threads

/-- The loop of `swap_to_next` when somebody can run: nothing changes but who runs. -/
theorem Sound.pick (sound : t.Sound rows away)
    (kept : ∀ r ∈ rows, r.tid = t.activeTid → r.stored c ret = r)
    (next : t.nextRunnable = some best)
    (ran : Threads.swapLoop (fuel + 1) t c ret = .ok (w, t', c')) :
    t' = { t with activeTid := best } ∧
      ∃ r ∈ rows, r.tid = best ∧ r.thread.state = .runnable ∧ r.thread.rax = w := by
  obtain ⟨g, member, here, can⟩ := Threads.nextRunnable_mem next
  obtain ⟨r, inside, at_, runs⟩ := Threads.Runs.mem sound.lists member here can
  have same : t.store c ret = t := by
    have stored := sound.onThread_threads t.activeTid fun g =>
      { g with rax := ret, rsp := c.guestRsp, threadArea := c.threadArea }
    have threads : (t.store c ret).threads = t.threads := by
      refine stored.trans ((List.map_congr_left fun g among => ?_).trans (List.map_id _))
      split
      · rename_i active
        rw [sound.lists.threads] at among
        obtain ⟨q, row, rfl⟩ := List.mem_map.mp among
        exact congrArg Row.thread (kept q row active)
      · rfl
    show { t with threads := (t.store c ret).threads } = t
    rw [threads]
  have found := sound.lists.findThread sound.sorted inside
  rw [at_] at found
  rw [Threads.swapLoop, next] at ran
  cases active : t.findThread t.activeTid with
  | none => rw [active] at ran; cases ran
  | some old =>
    rw [active] at ran
    dsimp only at ran
    split at ran
    · rename_i still
      cases ran
      rw [still, active] at found
      cases found
      exact ⟨by rw [still], r, inside, at_, runs, rfl⟩
    · rw [Threads.swapTo, active, same, found] at ran
      cases ran
      exact ⟨rfl, r, inside, at_, runs, rfl⟩

/-- A row that is still there and waits is still in its queue, when no queue has it anew. -/
theorem Sound.still_queued {away' : Option UInt32} (sound : t.Sound rows away')
    (after : t'.Sound t'.rows away) (inside : r ∈ t'.rows) (waits : r.thread.state = .waiting)
    (here : away ≠ some r.tid) (queued : r.tid ∈ t.waiters addr)
    (fewer : ∀ a, r.tid ∈ t'.waiters a → r.tid ∈ t.waiters a) :
    r.tid ∈ t'.waiters addr := by
  obtain ⟨a, there⟩ := (after.holds.mem r.tid).mpr ⟨here, r, inside, rfl, waits⟩
  rw [← sound.holds.single (fewer a there) queued]
  exact there

theorem Sound.of_rows (sound : t.Sound rows away) : t.Sound t.rows away := by
  rw [sound.lists.rows_eq]
  exact sound

theorem Sound.mem_rows (sound : t.Sound rows away) : r ∈ t.rows ↔ r ∈ rows := by
  rw [sound.lists.rows_eq]

/-- The row of a thread in a queue waits. -/
theorem Sound.waits (sound : t.Sound rows away) (inside : r ∈ rows)
    (queued : r.tid ∈ t.waiters addr) :
    away ≠ some r.tid ∧ r.thread.state = .waiting := by
  obtain ⟨here, q, among, same, waits⟩ := (sound.holds.mem r.tid).mp ⟨addr, queued⟩
  rw [sound.sorted.unique among inside same] at waits
  exact ⟨here, waits⟩

/-- The clock set, and what is due then expired. -/
def at_ (t : Threads) (clock : UInt64) : Threads := expireDue { t with vclockNs := clock }

theorem Sound.at_ (sound : t.Sound rows away) (clock : UInt64) :
    (t.at_ clock).Sound (rows.map (Row.expire clock)) away :=
  Sound.expireDue (t := { t with vclockNs := clock }) (sound.same rfl rfl rfl rfl rfl rfl)

theorem Sound.at_keeps (sound : t.Sound rows away) (clock : UInt64) :
    (t.at_ clock).activeTid = t.activeTid ∧ (t.at_ clock).vclockNs = clock ∧
      (t.at_ clock).spec = t.spec := by
  have moved : Lists { t with vclockNs := clock } rows :=
    ⟨sound.lists.threads, sound.lists.deadlines, sound.lists.seqs⟩
  obtain ⟨active, now, spec, -⟩ := moved.expireDue.keeps
  exact ⟨active, now, spec⟩

end Threads

theorem Row.expire_of_runnable (can : r.thread.state = .runnable) (clock : UInt64) :
    r.expire clock = r := by
  have early : r.due clock = false := by simp [due, Threads.due, can]
  rw [expire, if_neg (by simp [early])]

namespace Threads

/-- A clock that is set times out those that are due, and nobody else. -/
theorem Sound.at_fate (sound : t.Sound rows away) (clock : UInt64) (inside : r ∈ rows)
    (queued : r.tid ∈ t.waiters addr) :
    Threads.Fate False addr t (t.at_ clock) r := by
  have after := sound.at_ clock
  have row : r.expire clock ∈ (t.at_ clock).rows := by
    rw [after.mem_rows]
    exact List.mem_map_of_mem inside
  obtain ⟨-, now, -⟩ := sound.at_keeps clock
  by_cases ended : r.due clock
  · rw [Row.expire, if_pos ended] at row
    exact .expired row (by rw [now]; exact ended)
  · rw [Row.expire, if_neg ended] at row
    obtain ⟨here, waits⟩ := sound.waits inside queued
    refine .stays row (sound.still_queued after.of_rows row waits here queued fun a there => ?_)
      (.inr (by rw [now]; simpa using ended))
    have moved : Threads.Sound { t with vclockNs := clock } rows away :=
      sound.same rfl rfl rfl rfl rfl rfl
    obtain ⟨keep, queue⟩ := moved.expireDue_waiters a
    change r.tid ∈ (Threads.expireDue _).waiters a at there
    rw [queue] at there
    exact (List.mem_filter.mp there).1

/-- What a switch does to a thread, the one that stops running included. -/
structure Switched (x : UInt32) (t t' : Threads) (w : UInt64) : Prop where
  runnable : ∀ r ∈ t.rows, r.tid = x → r.thread.state = .runnable →
    r ∈ t'.rows ∧ t'.vclockNs = t.vclockNs
  waiting : ∀ r ∈ t.rows, r.tid = x → ∀ addr, x ∈ t.waiters addr → Fate False addr t t' r
  answer : t'.activeTid = x → ∃ r ∈ t'.rows, r.tid = x ∧ r.thread.rax = w

/-- What happens to a thread that nobody wakes, seen from an earlier set with the same clock. -/
theorem Fate.since (fate : Fate False addr s t' r) (clock : s.vclockNs = t.vclockNs) :
    Fate wakes addr t t' r := by
  cases fate with
  | stays still there early =>
    exact .stays still there (early.imp_left fun same => same.trans clock)
  | woken never => cases never
  | expired out ended => exact .expired out ended

/-- A change, and the switch after it. -/
theorem Fate.switched (fate : Fate wakes addr t s r) (switched : Switched r.tid s t' w) :
    Fate wakes addr t t' r := by
  cases fate with
  | stays still there early =>
    cases switched.waiting r still rfl addr there with
    | stays still there late =>
      refine .stays still there ?_
      rcases late with same | late
      · exact early.imp same.trans fun early => same.symm ▸ early
      · exact .inr late
    | woken never => cases never
    | expired out ended => exact .expired out ended
  | woken wakes out clock =>
    obtain ⟨out', clock'⟩ := switched.runnable _ out rfl rfl
    exact .woken wakes out' (clock'.trans clock)
  | expired out ended =>
    obtain ⟨out', clock⟩ := switched.runnable _ out rfl rfl
    exact .expired out' (clock.symm ▸ ended)

section

variable (sound : t.Sound rows away)
include sound

theorem Sound.pick_switched (kept : ∀ r ∈ rows, r.tid = t.activeTid → r.stored c ret = r)
    (next : t.nextRunnable = some best)
    (ran : Threads.swapLoop (fuel + 1) t c ret = .ok (w, t', c')) (x : UInt32) :
    Threads.Switched x t t' w := by
  obtain ⟨rfl, r, member, here, -, rax⟩ := sound.pick kept next ran
  refine ⟨fun q inside _ _ => ⟨inside, rfl⟩, ?_, fun same => ?_⟩
  · rintro q inside rfl addr queued
    exact .stays inside queued (.inl rfl)
  · exact ⟨r, sound.mem_rows.mpr member, here.trans same, rax⟩

/-- `swap_to_next` looks twice at most: a clock it moves makes somebody runnable. -/
theorem Sound.swapLoop_switched (kept : ∀ r ∈ rows, r.tid = t.activeTid → r.stored c ret = r)
    (ran : Threads.swapLoop fuel t c ret = .ok (w, t', c')) (x : UInt32) :
    Threads.Switched x t t' w := by
  cases fuel with
  | zero => cases ran
  | succ fuel =>
    cases next : t.nextRunnable with
    | some best => exact sound.pick_switched kept next ran x
    | none =>
      rw [Threads.swapLoop, next] at ran
      cases active : t.findThread t.activeTid with
      | none => rw [active] at ran; cases ran
      | some old =>
        rw [active] at ran
        dsimp only at ran
        split at ran
        next forward =>
          have after : t.fastForward.Sound _ away := sound.at_ t.earliest
          obtain ⟨same, now, -⟩ := sound.at_keeps t.earliest
          change t.fastForward.activeTid = t.activeTid at same
          change t.fastForward.vclockNs = t.earliest at now
          cases found : t.fastForward.findThread t.fastForward.activeTid with
          | none => rw [found] at ran; cases ran
          | some self =>
            rw [found] at ran
            dsimp only at ran
            obtain ⟨q, row, here, rfl⟩ := after.lists.mem_of_findThread found
            have kept' : ∀ r ∈ rows.map (Row.expire t.earliest),
                r.tid = t.fastForward.activeTid → r.stored c q.thread.rax = r := by
              intro r member at_
              rw [after.sorted.unique member row (at_.trans here.symm)]
              obtain ⟨p, before, rfl⟩ := List.mem_map.mp row
              have own : p.tid = t.activeTid := by
                rw [← same, ← here, Row.expire]
                split <;> rfl
              have as_ := kept p before own
              rw [← as_]
              unfold Row.expire
              split <;> rfl
            have runs : ∃ best, t.fastForward.nextRunnable = some best := by
              have moved : Threads.Lists { t with vclockNs := t.earliest } rows :=
                ⟨sound.lists.threads, sound.lists.deadlines, sound.lists.seqs⟩
              obtain ⟨g, member, can⟩ :=
                moved.expireDue_runs (t.earliest_least.1 forward.2)
              cases next : t.fastForward.nextRunnable with
              | none => exact absurd can (Threads.nextRunnable_eq_none.mp next g member)
              | some best => exact ⟨best, rfl⟩
            obtain ⟨best, next'⟩ := runs
            cases fuel with
            | zero => cases ran
            | succ fuel =>
              have switched := after.pick_switched kept' next' ran x
              refine ⟨fun r inside _ can => ?_, ?_, switched.answer⟩
              · have idle := Threads.nextRunnable_eq_none.mp next
                refine absurd can (idle r.thread ?_)
                rw [sound.lists.threads]
                exact List.mem_map_of_mem (sound.mem_rows.mp inside)
              · rintro r inside rfl addr queued
                have fate := sound.at_fate t.earliest (sound.mem_rows.mp inside) queued
                exact fate.switched switched
        · cases ran

theorem Sound.store (c : Context) (ret : UInt64) :
    (t.store c ret).Sound (rows.map (Row.on t.activeTid (Row.stored c ret))) away :=
  sound.touch t.activeTid (fun _ => rfl) (fun _ => rfl)

/-- A switch, from where the thread that stops has left its answer behind. -/
theorem Sound.store_switched (ran : t.swapToNext c ret = .ok (w, t', c')) (x : UInt32) :
    Threads.Switched x (t.store c ret) t' w := by
  refine (sound.store c ret).swapLoop_switched (fun r member active => ?_) ran x
  rcases mem_map_on.mp member with ⟨q, -, -, rfl⟩ | ⟨-, apart⟩
  · rfl
  · exact absurd active apart

/-- A switch, for a thread that did not run. -/
theorem Sound.switched (ran : t.swapToNext c ret = .ok (w, t', c')) (other : x ≠ t.activeTid) :
    Switched x t t' w := by
  have switched := sound.store_switched ran x
  have same : ∀ r ∈ t.rows, r.tid = x → r ∈ (t.store c ret).rows := by
    rintro r inside rfl
    rw [(sound.store c ret).mem_rows]
    exact mem_map_on.mpr (.inr ⟨sound.mem_rows.mp inside, other⟩)
  refine ⟨fun r inside here can => ?_, fun r inside here addr queued => ?_, switched.answer⟩
  · exact switched.runnable r (same r inside here) here can
  · exact (switched.waiting r (same r inside here) here addr queued).since rfl

/-- The switch of a lock that is handed over, for a thread that did not run. -/
theorem Sound.swapTo_switched {tid : UInt32} (ran : t.swapTo c tid ret = .ok (w, t', c'))
    (other : x ≠ t.activeTid) :
    Threads.Switched x t t' w := by
  have stored := sound.store c ret
  have same : ∀ r ∈ t.rows, r.tid = x → r ∈ (t.store c ret).rows := by
    rintro r inside rfl
    rw [stored.mem_rows]
    exact mem_map_on.mpr (.inr ⟨sound.mem_rows.mp inside, other⟩)
  unfold Threads.swapTo at ran
  split at ran
  · rename_i old next _ found
    cases ran
    refine ⟨fun r inside here _ => ⟨same r inside here, rfl⟩, ?_, fun now => ?_⟩
    · rintro r inside rfl addr queued
      exact .stays (same r inside rfl) queued (.inl rfl)
    · obtain ⟨r, member, here, rfl⟩ := stored.lists.mem_of_findThread found
      exact ⟨r, stored.mem_rows.mpr member, here.trans now, rfl⟩
  · cases ran

end

end Threads

/-! ## Changes -/

variable {wakes : UInt64 → Prop}

namespace Threads.Changes

theorem refl (t : Threads) : Changes wakes x t t := by
  refine ⟨fun r inside _ _ => inside, ?_⟩
  rintro r inside rfl addr queued
  exact .stays inside queued (.inl rfl)

/-- Two changes during which the clock stands still. -/
theorem trans (first : Changes wakes x t s)
    (second : Changes wakes x s t') (early : s.vclockNs = t.vclockNs)
    (late : t'.vclockNs = s.vclockNs) : Changes wakes x t t' := by
  constructor
  · intro r inside here can
    exact second.runnable r (first.runnable r inside here can) here can
  · rintro r inside rfl addr queued
    cases first.waiting r inside rfl addr queued with
    | stays still there _ =>
      cases second.waiting r still rfl addr there with
      | stays still there _ => exact .stays still there (.inl (late.trans early))
      | woken wakes out clock => exact .woken wakes out (clock.trans early)
      | expired out ended => exact .expired out ended
    | woken wakes out clock =>
      exact .woken wakes (second.runnable _ out rfl rfl) (late.trans clock)
    | expired out ended => exact .expired (second.runnable _ out rfl rfl) (late.symm ▸ ended)

/-- A change, and the switch after it. -/
theorem switched (changes : Changes wakes x t s)
    (switched : Switched x s t' w) : Follows wakes x t t' w := by
  refine ⟨⟨fun r inside here can => ?_, ?_⟩, switched.answer⟩
  · exact (switched.runnable r (changes.runnable r inside here can) here can).1
  · rintro r inside rfl addr queued
    exact (changes.waiting r inside rfl addr queued).switched switched

/-- A change to rows and queues that leaves the thread in both. -/
theorem of_kept (rows : ∀ r ∈ t.rows, r.tid = x → r ∈ t'.rows)
    (queues : ∀ a, x ∈ t.waiters a → x ∈ t'.waiters a) (clock : t'.vclockNs = t.vclockNs) :
    Changes wakes x t t' := by
  constructor
  · intro r inside here _
    exact rows r inside here
  · rintro r inside rfl addr queued
    exact .stays (rows r inside rfl) (queues addr queued) (.inl clock)

/-- A change to the row of another thread. -/
theorem of_other {tid : UInt32} {f : Row → Row} {away' : Option UInt32}
    (sound : t.Sound rows away) (after : t'.Sound (rows.map (Row.on tid f)) away') (other : x ≠ tid)
    (queues : ∀ a, x ∈ t.waiters a → x ∈ t'.waiters a) (clock : t'.vclockNs = t.vclockNs) :
    Changes wakes x t t' := by
  refine .of_kept ?_ queues clock
  rintro r inside rfl
  rw [after.mem_rows]
  exact mem_map_on.mpr (.inr ⟨sound.mem_rows.mp inside, other⟩)

theorem touch (sound : t.Sound rows away) {tid : UInt32} {g : GThread → GThread}
    (id_ : ∀ y, (g y).tid = y.tid) (state : ∀ y, (g y).state = y.state) (other : x ≠ tid) :
    Changes wakes x t (t.onThread tid g) :=
  .of_other sound (sound.touch tid id_ state) other (fun _ queued => queued) rfl

theorem at_ (sound : t.Sound rows away) (clock : UInt64) : Changes wakes x t (t.at_ clock) := by
  constructor
  · intro r inside _ can
    rw [(sound.at_ clock).mem_rows, ← Row.expire_of_runnable can clock]
    exact List.mem_map_of_mem (sound.mem_rows.mp inside)
  · rintro r inside rfl addr queued
    cases sound.at_fate clock (sound.mem_rows.mp inside) queued with
    | stays still there early => exact .stays still there early
    | woken never => cases never
    | expired out ended => exact .expired out ended

end Threads.Changes

theorem Threads.park_waiters {a : UInt64} (queued : x ∈ t.waiters a) (addr : UInt64)
    (tid : UInt32) :
    x ∈ (t.park addr tid).waiters a := by
  show x ∈ Queues.queued (t.futicies.extend addr [tid]) a
  rw [Queues.queued_extend]
  split
  · exact List.mem_append_left _ queued
  · exact queued

theorem Threads.Changes.park (sound : t.Sound rows none) (runs : t.Runs rows)
    (other : x ≠ t.activeTid) (addr : UInt64) :
    Changes wakes x t (t.park addr t.activeTid) := by
  obtain ⟨r, member, here, can⟩ := runs
  have parked := sound.park member can addr
  rw [here] at parked
  exact .of_other sound parked other (fun a queued => park_waiters queued addr _) rfl

/-- The first at an address woken. -/
theorem Threads.Changes.unparkOne (sound : t.Sound rows away) (addr : UInt64)
    (mine : wakes addr) : Changes wakes x t (t.unparkOne addr).2 := by
  rcases sound.unparkOne addr with ⟨-, answer⟩ | ⟨tid, rest, head, answer⟩
  · rw [answer]
    exact .refl t
  · rw [answer]
    have after := sound.wake head
    by_cases first : x = tid
    · subst first
      constructor
      · rintro r inside rfl can
        have queued : r.tid ∈ t.waiters addr := by simp [head]
        rw [(sound.waits (sound.mem_rows.mp inside) queued).2] at can
        cases can
      · rintro r inside rfl a queued
        have here : r.tid ∈ t.waiters addr := by simp [head]
        rw [sound.holds.single queued here]
        refine .woken mine ?_ rfl
        exact after.mem_rows.mpr (mem_map_on.mpr (.inl ⟨r, sound.mem_rows.mp inside, rfl, rfl⟩))
    · refine .of_other sound after first (fun a queued => ?_) rfl
      rw [sound.wake_waiters head]
      split
      · rename_i here
        rw [here, head] at queued
        exact (List.mem_cons.mp queued).resolve_left first
      · exact queued

/-- A wake of any number: the loop of a requeue that moves nobody. -/
theorem Threads.Changes.wakeLoop {addr : UInt64} (target : UInt64) (mine : wakes addr) :
    ∀ {left wake : Nat} {t : Threads}, t.Good → left ≤ wake →
      Changes wakes x t (requeueLoop addr target left wake t).2 ∧
        (requeueLoop addr target left wake t).2.vclockNs = t.vclockNs
  | 0, _, t, _, _ => ⟨.refl t, rfl⟩
  | left + 1, wake, t, ⟨rows, sound, runs⟩, few => by
    have first := Changes.unparkOne (x := x) sound addr mine
    rcases sound.unparkOne addr with ⟨none_, -⟩ | ⟨tid, rest, head, answer⟩
    · rw [sound.requeueLoop_nil none_]
      exact ⟨.refl t, rfl⟩
    · have some_ : wake ≠ 0 := by omega
      have turn : Requeued addr target 1 wake t 1 _ := sound.turn runs (.inr some_) head
      have woken : t.turned addr target wake tid rest = _ := if_neg some_
      rw [sound.requeueLoop_cons runs (.inr some_) head]
      rw [woken] at turn ⊢
      rw [answer] at first
      obtain ⟨others, clock⟩ := Changes.wakeLoop target mine turn.good
        (show left ≤ wake - 1 by omega)
      exact ⟨first.trans others rfl clock, clock⟩

end Follow

/-! ## Operations -/

/-- Where an operation takes a thread out of a queue. -/
def ThreadOp.WakesAt (t : Threads) (addr : UInt64) : ThreadOp → Prop
  | .futexWake a _ => a = addr
  | .futexUnlockPi a => a = addr
  | .exit => ∃ self, t.findThread t.activeTid = some self ∧ self.tidAddress = addr ∧ addr ≠ 0
  | _ => False

/-- The operations that neither move a thread from queue to queue nor replace the set. -/
def ThreadOp.Keeps : ThreadOp → Prop
  | .futexRequeue .. => False
  | .load _ => False
  | _ => True

section Operations

variable {M : Type} {m m' : Machine M} {x : UInt32} {w : UInt64} {wakes : UInt64 → Prop}
variable {t : Threads}

/-- An operation that lets nobody else run. -/
theorem Threads.Changes.follows {t' : Threads} (changes : Changes wakes x t t')
    (active : t'.activeTid = t.activeTid) (other : x ≠ t.activeTid) (w : UInt64) :
    Follows wakes x t t' w :=
  ⟨changes, fun same => absurd (active.symm.trans same).symm other⟩

variable [GuestMemory M] {t' s : Threads} {rows : List Row} {op : ThreadOp}

/-- What an exit does before it switches. -/
theorem Machine.leave_changes (good : m.threads.Good) {self : GThread}
    (found : m.threads.findThread m.threads.activeTid = some self)
    (other : x ≠ m.threads.activeTid) :
    Threads.Changes (fun a => ThreadOp.exit.WakesAt m.threads a) x m.threads
      (m.leave self).threads := by
  obtain ⟨rows, sound, r, member, here, runs⟩ := good
  have alone : Threads.Changes (fun a => ThreadOp.exit.WakesAt m.threads a) x m.threads
      (m.threads.onThread m.threads.activeTid fun g => { g with state := .waiting }) := by
    rw [← here] at other ⊢
    exact .of_other sound (sound.leaves member runs) other (fun _ queued => queued) rfl
  unfold leave
  split
  · exact alone
  · rename_i some_
    have first : Threads.Changes (fun a => ThreadOp.exit.WakesAt m.threads a) x m.threads
        (m.threads.unparkOne self.tidAddress).2 :=
      .unparkOne sound self.tidAddress ⟨self, found, rfl, some_⟩
    rcases sound.unparkOne self.tidAddress with ⟨-, none_⟩ | ⟨tid, rest, head, answer⟩
    · rw [none_]
      exact alone
    · rw [answer] at first ⊢
      have waits : tid ∈ m.threads.waiters self.tidAddress := by simp [head]
      have apart := sound.not_active ⟨r, member, here, runs⟩ waits
      have still : r ∈ rows.map (Row.on tid (Row.marked .runnable 0 0)) :=
        mem_map_on.mpr (.inr ⟨member, fun same => apart (same.symm.trans here)⟩)
      have woken := sound.wake head
      have gone := woken.leaves still runs
      rw [here] at gone
      exact first.trans (.of_other woken gone other (fun _ queued => queued) rfl) rfl rfl

/-- An operation after which the same thread runs hands nothing to another. -/
theorem Threads.Changes.unanswered (changes : Changes wakes x t t')
    (active : t'.activeTid = t.activeTid) (other : x ≠ t.activeTid) (reply : Reply) :
    ∃ w, Follows wakes x t t' w ∧ (t'.activeTid = x → reply = .word w) :=
  ⟨0, changes.follows active other 0, fun same => absurd (active.symm.trans same).symm other⟩

theorem Threads.Touched.unanswered (touched : t.Touched t') (sound : t.Sound rows none)
    (other : x ≠ t.activeTid) (reply : Reply) :
    ∃ w, Follows wakes x t t' w ∧ (t'.activeTid = x → reply = .word w) := by
  cases touched with
  | same => exact (Changes.refl t).unanswered rfl other reply
  | row id_ state => exact (Changes.touch sound id_ state other).unanswered rfl other reply

omit [GuestMemory M] in
theorem ThreadOp.Readies.changes (readies : op.Readies m s) (good : m.threads.Good)
    (other : x ≠ m.threads.activeTid) :
    Threads.Changes wakes x m.threads s := by
  obtain ⟨rows, sound, runs⟩ := good
  cases readies with
  | same => exact .refl _
  | ticked => exact .at_ sound _
  | @parked addr _ => exact .park sound runs other addr
  | @timed addr deadline _ v3 =>
    have parked := Machine.parkUntil_sound sound runs rfl v3 addr deadline
    refine .of_other sound parked other (fun a queued => ?_) rfl
    exact Threads.park_waiters queued addr m.threads.activeTid

/-- A switch after which the thread that stopped is gone. -/
theorem Threads.Follows.removed {gone : UInt32} (follows : Follows wakes x t s w)
    (sound : s.Sound rows (some gone)) (other : x ≠ gone) :
    Follows wakes x t (s.removeThread gone) w := by
  have removed := sound.remove
  have same : ∀ r ∈ s.rows, r.tid = x → r ∈ (s.removeThread gone).rows := by
    rintro r inside rfl
    rw [removed.mem_rows, List.mem_filter]
    exact ⟨sound.mem_rows.mp inside, by simpa using other⟩
  refine ⟨⟨fun r inside here can => ?_, ?_⟩, fun now => ?_⟩
  · exact same r (follows.runnable r inside here can) here
  · rintro r inside rfl addr queued
    cases follows.waiting r inside rfl addr queued with
    | stays still there early => exact .stays (same r still rfl) there early
    | woken mine out clock => exact .woken mine (same _ out rfl) clock
    | expired out ended => exact .expired (same _ out rfl) ended
  · obtain ⟨r, inside, here, rax⟩ := follows.answer now
    exact ⟨r, same r inside here, here, rax⟩

/-- What an operation does to a thread that does not run it, and what that thread is handed
when it is the one that runs next. -/
theorem ThreadOp.follows {reply : Reply} (good : m.threads.Good) (keeps : op.Keeps)
    (fits : op.Fits m.threads) (ran : op.run m = .ok (reply, m'))
    (other : x ≠ m.threads.activeTid) :
    ∃ w, Threads.Follows (fun a => op.WakesAt m.threads a) x m.threads m'.threads w ∧
      (m'.threads.activeTid = x → reply = .word w) := by
  obtain ⟨rows, sound, runs⟩ := id good
  have way := way good ran
  generalize m'.threads = t' at way ⊢
  cases way with
  | touched touched => exact touched.unanswered sound other reply
  | @spawned _ _ _ _ _ _ _ g runs next =>
    have changes : Threads.Changes (fun _ => False) x m.threads
        { m.threads.insertThread g with nextTid := m.threads.nextTid + 1 } := by
      refine .of_kept (fun r inside here => ?_) (fun _ queued => queued) rfl
      rw [(sound.spawn runs next fits).mem_rows]
      exact (mem_insert_place sound.sorted).mpr (.inr (sound.mem_rows.mp inside))
    exact changes.unanswered rfl other _
  | advanced ns => exact (Threads.Changes.at_ sound _).unanswered (sound.at_keeps _).1 other _
  | switched readies next =>
    obtain ⟨⟨rows', ready⟩, active, -⟩ := readies.sound good
    exact ⟨_, (readies.changes good other).switched (ready.switched next (active.symm ▸ other)),
      fun _ => rfl⟩
  | @passed addr _ _ _ _ _ _ _ _ woke next =>
    have first : Threads.Changes (fun a => addr = a) x m.threads (m.threads.unparkOne addr).2 :=
      .unparkOne sound addr rfl
    rcases sound.unparkOne addr with ⟨-, none_⟩ | ⟨tid, rest, head, answer⟩
    · rw [none_] at woke
      cases woke
    · rw [answer] at woke first
      cases woke
      exact ⟨_, first.switched ((sound.wake head).swapTo_switched next other), fun _ => rfl⟩
  | @left self s _ _ _ _ found next gone =>
    obtain ⟨active, ⟨rows', left⟩, -⟩ := Machine.leave_sound good self
    obtain ⟨⟨rows'', kept, -⟩, -⟩ := left.swapToNext next
    have changes := Machine.leave_changes good found other
    have follows := changes.switched (left.switched next (active.symm ▸ other))
    exact ⟨_, follows.removed kept other, fun _ => rfl⟩
  | @woke addr count _ =>
    have woke : Threads.Requeued addr 0 (count.toNat + 0) count.toNat m.threads _ _ :=
      Threads.Sound.requeueLoop good (.inr (Nat.le_refl _))
    have changes : Threads.Changes (fun a => addr = a) x m.threads
        (Threads.requeueLoop addr 0 (count.toNat + 0) count.toNat m.threads).2 :=
      (Threads.Changes.wakeLoop 0 rfl good (Nat.le_refl _)).1
    exact changes.unanswered woke.active other _
  | requeued => cases keeps
  | loaded => cases keeps

end Operations

end MiniBox
