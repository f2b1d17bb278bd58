import MiniBox.Block.Machine
import MiniBox.Host.Rest

/-!
# Stopping a guest that does not come back

A frontend's watchdog asks from another thread that the call in progress end, and may take it
back.  The guest dies at its next system call, unless it has worked since it was asked: made a
system call of the working kind, or had the frontend count a piece of work done for it.

The watchdog's word is three fields of the context: a stop is pending, the work there was when
it was asked for, and the reason.  No system call touches them once it is past the check
(`Host.serve_watch`), so what a call does to them is what `dispatch_inner` does first.
-/

namespace MiniBox

open Lib GuestMemory

namespace Host

variable {h : Host}

/-- Past the check for a stop, no system call touches what the watchdog looks at. -/
theorem serve_watch {nr : Nr} {a : Args} {w : UInt64} {g : Host} (ran : h.serve nr a = .ok (w, g)) :
    g.watch = h.watch := by
  rcases serve_cases ran with same | ⟨-, -, -, held⟩ | ⟨c, -, ran⟩
  · exact congrArg HostRest.watch same
  · rw [held]
    rfl
  · unfold threadCall at ran
    split at ran
    · cases ran
    · cases ran
      rfl

/-! ## The watchdog's side -/

variable (h)

/-- `mb_work`. -/
def work : UInt64 := h.activity + h.extraWork

/-- What `stop_why` keeps of the bytes of a reason, a character for each. -/
def stopReason : Option Bytes → String
  | some why =>
    if why = [] then "the host stopped the core"
    else String.ofList ((why.take 199).map fun byte => Char.ofNat byte.toNat)
  | none => "the host stopped the core"

/-- `mb_host_stop`, what it leaves in the context: the first ask of a stop says why, and how
much work there was. -/
def stop (why : Option Bytes) : Host :=
  if !h.haveStopThread || !h.guarded || h.dead then h
  else if h.stopPending then h
  else { h with stopWhy := stopReason why, stopActivity := h.work, stopPending := true }

/-- `mb_host_stop_cancel`. -/
def stopCancel : Host := { h with stopPending := false }

/-- The frontend counts a piece of work. -/
def worked : Host := { h with extraWork := h.extraWork + 1 }

/-- `dispatch_inner` finds a stop to carry out at system call `nr`. -/
def stopsAt (nr : UInt64) : Bool := (h.countWork (Nr.ofWord nr)).stopDue.1

/-- What answers a call that is not stopped. -/
def arm (nr : UInt64) (a : Args) : Served :=
  match Nr.ofWord nr with
  | some nr => h.serve nr a
  | none =>
    .error (.died (.guest ("the core asked for system call " ++ toString nr.toNat ++ " (" ++
      hex a.a1 ++ ", " ++ hex a.a2 ++ ", " ++ hex a.a3 ++
      "), which the sandbox does not provide")) h.memory)

/-- The check in a call: a pending stop is carried out, or it was worked past and none is
pending any more. -/
theorem stopDue_cases (guarded : h.guarded = true) :
    (h.stopPending = true ∧ h.work = h.stopActivity) ∧ h.stopDue = (true, h) ∨
      ¬ (h.stopPending = true ∧ h.work = h.stopActivity) ∧
        h.stopDue = (false, { h with stopPending := false }) := by
  unfold stopDue work
  cases pending : h.stopPending with
  | false =>
    refine .inr ⟨fun both => Bool.noConfusion both.1, ?_⟩
    rw [if_pos (by simp), ← pending]
  | true =>
    rw [if_neg (by simp [guarded])]
    by_cases same : h.activity + h.extraWork = h.stopActivity
    · rw [if_neg (not_not.mpr same)]
      exact .inl ⟨⟨rfl, same⟩, rfl⟩
    · rw [if_pos same]
      exact .inr ⟨fun both => same both.2, rfl⟩

theorem countWork_kept (nr : Option Nr) : ∃ activity, h.countWork nr = { h with activity } := by
  unfold countWork
  split
  · split_ifs
    · exact ⟨h.activity, rfl⟩
    · exact ⟨_, rfl⟩
  · exact ⟨_, rfl⟩

/-- A system call in a guarded call of a machine that is alive: the check, and then the arm. -/
theorem dispatchInner_cases (alive : h.dead = false) (guarded : h.guarded = true) (nr : UInt64)
    (a : Args) :
    h.stopsAt nr = true ∧ h.dispatchInner nr a = .error (.died (.guest h.stopWhy) h.memory) ∨
      h.stopsAt nr = false ∧ h.dispatchInner nr a =
        { h.countWork (Nr.ofWord nr) with stopPending := false }.arm nr a := by
  obtain ⟨activity, counted⟩ := h.countWork_kept (Nr.ofWord nr)
  have still : (h.countWork (Nr.ofWord nr)).guarded = true := by rw [counted]; exact guarded
  unfold dispatchInner stopsAt
  rw [alive, if_neg (by simp)]
  rcases (h.countWork (Nr.ofWord nr)).stopDue_cases still with ⟨-, due⟩ | ⟨-, goes⟩
  · rw [due, counted]
    exact .inl ⟨rfl, rfl⟩
  · rw [goes]
    exact .inr ⟨rfl, rfl⟩

end Host

/-! ## A call into the guest -/

/-- What happens during a call into the guest, as far as the watchdog minds. -/
inductive WatchEvent where
  | ask (why : Option Bytes)
  | cancel
  | work
  | call (nr : UInt64)

namespace WatchEvent

/-- A piece of counted work, or a system call of the working kind. -/
def isWork : WatchEvent → Bool
  | ask _ => false
  | cancel => false
  | work => true
  | call nr => !(Nr.ofWord nr).any Nr.waits

/-- Neither work nor a cancel. -/
def quiet : WatchEvent → Bool
  | cancel => false
  | e => !e.isWork

end WatchEvent

/-- Some ask was not cancelled since, and no work happened after it. -/
def Standing (events : List WatchEvent) : Prop :=
  ∃ before why since, events = before ++ .ask why :: since ∧ ∀ e ∈ since, e.quiet = true

def works (events : List WatchEvent) : Nat := events.countP WatchEvent.isWork

/-- One call into the guest so far: what happened in it, and the host after that.  `allowed`
holds whenever a stop is asked for.  Between the events the guest runs its own code, and host
code runs for it. -/
inductive Host.InCall (allowed : Host → Prop) (start : Host) : List WatchEvent → Host → Prop where
  | starts : InCall allowed start [] start
  | runs {events : List WatchEvent} {h g : Host} :
      InCall allowed start events h → g.watch = h.watch → InCall allowed start events g
  | ask {events : List WatchEvent} {h : Host} (why : Option Bytes) :
      InCall allowed start events h → allowed h →
      InCall allowed start (events ++ [.ask why]) (h.stop why)
  | cancel {events : List WatchEvent} {h : Host} :
      InCall allowed start events h → InCall allowed start (events ++ [.cancel]) h.stopCancel
  | work {events : List WatchEvent} {h : Host} :
      InCall allowed start events h → InCall allowed start (events ++ [.work]) h.worked
  | call {events : List WatchEvent} {h g : Host} {nr ret : UInt64} {a : Args} :
      InCall allowed start events h → h.dispatchInner nr a = .ok (ret, g) →
      InCall allowed start (events ++ [.call nr]) g

theorem standing_nil : ¬ Standing [] := by
  rintro ⟨before, why, since, is, -⟩
  exact List.cons_ne_nil _ _ (List.append_eq_nil_iff.mp is.symm).2

/-- An ask stands until a cancel or work. -/
theorem standing_append (events : List WatchEvent) (e : WatchEvent) :
    Standing (events ++ [e]) ↔ (∃ why, e = .ask why) ∨ Standing events ∧ e.quiet = true := by
  constructor
  · rintro ⟨before, why, since, is, quiet⟩
    rcases List.eq_nil_or_concat since with rfl | ⟨init, last, rfl⟩
    · obtain ⟨-, last⟩ := List.append_inj' is rfl
      exact .inl ⟨why, List.singleton_inj.mp last⟩
    · rw [List.concat_eq_append, ← List.cons_append, ← List.append_assoc] at is
      obtain ⟨early, same⟩ := List.append_inj' is rfl
      obtain rfl := List.singleton_inj.mp same
      rw [List.concat_eq_append] at quiet
      exact .inr ⟨⟨before, why, init, early, fun d member => quiet d
        (List.mem_append_left _ member)⟩,
        quiet e (by simp)⟩
  · rintro (⟨why, rfl⟩ | ⟨⟨before, why, since, rfl, quiet⟩, last⟩)
    · exact ⟨events, why, [], rfl, List.forall_mem_nil _⟩
    · refine ⟨before, why, since ++ [e], by simp, ?_⟩
      intro d member
      rcases List.mem_append.mp member with early | late
      · exact quiet d early
      · rw [List.mem_singleton.mp late]
        exact last

theorem works_append (events : List WatchEvent) (e : WatchEvent) :
    works (events ++ [e]) = works events + e.isWork.toNat := by
  unfold works
  rw [List.countP_append, List.countP_singleton]
  cases e.isWork <;> rfl

/-! ## What the watchdog is told -/

/-- The context after these events of a call: a stop is pending while an ask stands, and the
work since it was asked for is what tells one that stands from one that does not. -/
structure WatchFields.Attended (events : List WatchEvent) (w : WatchFields) : Prop where
  named : w.haveStopThread = true
  guarded : w.guarded = true
  alive : w.dead = false
  standing : Standing events → w.stopPending = true
  since : w.stopPending = true → ∃ n ≤ works events,
    w.activity + w.extraWork = w.stopActivity + UInt64.ofNat n ∧ (Standing events ↔ n = 0)

namespace Host

/-- No older ask is pending that the guest has worked past. -/
def AsksAfresh (h : Host) : Prop := h.stopPending = true → h.work = h.stopActivity

section Steps

variable {events : List WatchEvent} {h g : Host}

theorem attended_ask (attended : h.watch.Attended events) (afresh : h.AsksAfresh)
    (why : Option Bytes) :
    (h.stop why).watch.Attended (events ++ [.ask why]) := by
  have stands : Standing (events ++ [.ask why]) := (standing_append ..).mpr (.inl ⟨why, rfl⟩)
  have accepted : ¬ (!h.haveStopThread || !h.guarded || h.dead) = true := by
    rw [show h.haveStopThread = true from attended.named, show h.guarded = true from
      attended.guarded,
      show h.dead = false from attended.alive]
    decide
  unfold stop
  rw [if_neg accepted]
  split
  next pending =>
    refine ⟨attended.named, attended.guarded, attended.alive, fun _ => pending, fun _ => ?_⟩
    refine ⟨0, Nat.zero_le _, ?_, by simp [stands]⟩
    rw [show UInt64.ofNat 0 = 0 from rfl, UInt64.add_zero]
    exact afresh pending
  · refine ⟨attended.named, attended.guarded, attended.alive, fun _ => rfl, fun _ => ?_⟩
    exact ⟨0, Nat.zero_le _, (UInt64.add_zero _).symm, by simp [stands]⟩

theorem attended_cancel (attended : h.watch.Attended events) :
    h.stopCancel.watch.Attended (events ++ [.cancel]) := by
  refine ⟨attended.named, attended.guarded, attended.alive, fun stands => ?_, fun pending => ?_⟩
  · rcases (standing_append ..).mp stands with ⟨why, ⟨⟩⟩ | ⟨-, ⟨⟩⟩
  · exact Bool.noConfusion pending

theorem attended_work (attended : h.watch.Attended events) :
    h.worked.watch.Attended (events ++ [.work]) := by
  have falls : ¬ Standing (events ++ [.work]) := by
    intro stands
    rcases (standing_append ..).mp stands with ⟨why, ⟨⟩⟩ | ⟨-, ⟨⟩⟩
  refine ⟨attended.named, attended.guarded, attended.alive, fun stands => absurd stands falls,
    fun pending => ?_⟩
  obtain ⟨n, le, is, -⟩ := attended.since pending
  refine ⟨n + 1, ?_, ?_, by simp [falls]⟩
  · rw [works_append]
    exact Nat.add_le_add_right le 1
  · show h.activity + (h.extraWork + 1) = h.stopActivity + UInt64.ofNat (n + 1)
    rw [UInt64.ofNat_add, ← UInt64.add_assoc, ← UInt64.add_assoc]
    exact congrArg (· + 1) is

/-- The work counted by the time of the check. -/
theorem countWork_work (nr : UInt64) : (h.countWork (Nr.ofWord nr)).work =
      h.work + UInt64.ofNat (WatchEvent.call nr).isWork.toNat := by
  have one : ∀ x y : UInt64, x + 1 + y = x + y + 1 := fun x y => by
    rw [UInt64.add_assoc, UInt64.add_comm 1 y, UInt64.add_assoc]
  show (h.countWork (Nr.ofWord nr)).work =
    h.work + UInt64.ofNat (!(Nr.ofWord nr).any Nr.waits).toNat
  unfold countWork
  cases Nr.ofWord nr with
  | none => exact one _ _
  | some nr =>
    dsimp only
    rw [Option.any_some]
    cases nr.waits with
    | true => exact (UInt64.add_zero _).symm
    | false => exact one _ _

/-- The check finds a stop to carry out: one is pending and nobody worked since. -/
theorem stopsAt_eq (guarded : h.guarded = true) (nr : UInt64) :
    h.stopsAt nr = true ↔ h.stopPending = true ∧
      h.work + UInt64.ofNat (WatchEvent.call nr).isWork.toNat = h.stopActivity := by
  obtain ⟨activity, counted⟩ := h.countWork_kept (Nr.ofWord nr)
  have still : (h.countWork (Nr.ofWord nr)).guarded = true := by rw [counted]; exact guarded
  have pending : (h.countWork (Nr.ofWord nr)).stopPending = h.stopPending := by rw [counted]
  have asked : (h.countWork (Nr.ofWord nr)).stopActivity = h.stopActivity := by rw [counted]
  unfold stopsAt
  rw [← countWork_work, ← pending, ← asked]
  rcases (h.countWork (Nr.ofWord nr)).stopDue_cases still with ⟨due, is⟩ | ⟨not_due, is⟩
  · rw [is]
    exact iff_of_true rfl due
  · rw [is]
    exact iff_of_false Bool.false_ne_true not_due

/-- It does so while an ask stands. -/
theorem stopsAt_iff (attended : h.watch.Attended events) {nr : UInt64}
    (few : works (events ++ [.call nr]) < 2 ^ 64) :
    h.stopsAt nr = true ↔ Standing (events ++ [.call nr]) := by
  rw [stopsAt_eq attended.guarded, standing_append]
  rw [works_append] at few
  constructor
  · rintro ⟨pending, same⟩
    obtain ⟨n, le, is, stands⟩ := attended.since pending
    have none : n + (WatchEvent.call nr).isWork.toNat = 0 := by
      rw [show h.work = h.stopActivity + UInt64.ofNat n from is, UInt64.add_assoc,
        ← UInt64.ofNat_add, UInt64.add_eq_left] at same
      have zero := congrArg UInt64.toNat same
      rw [UInt64.toNat_ofNat', UInt64.toNat_zero] at zero
      omega
    refine .inr ⟨stands.mpr (by omega), ?_⟩
    show (!(WatchEvent.call nr).isWork) = true
    cases work : (WatchEvent.call nr).isWork with
    | false => rfl
    | true =>
      rw [work] at none
      exact absurd none (by simp)
  · rintro (⟨why, ⟨⟩⟩ | ⟨standing, quiet⟩)
    have idle : (WatchEvent.call nr).isWork = false := by
      simpa [WatchEvent.quiet] using quiet
    have pending := attended.standing standing
    obtain ⟨n, -, is, stands⟩ := attended.since pending
    refine ⟨pending, ?_⟩
    rw [show h.work = h.stopActivity + UInt64.ofNat n from is, stands.mp standing, idle]
    simp

/-- A system call that is answered leaves no stop pending, and none stands. -/
theorem attended_call (attended : h.watch.Attended events) {nr ret : UInt64} {a : Args}
    (few : works (events ++ [.call nr]) < 2 ^ 64) (answered : h.dispatchInner nr a = .ok (ret, g)) :
    g.watch.Attended (events ++ [.call nr]) := by
  rcases h.dispatchInner_cases attended.alive attended.guarded nr a with ⟨-, died⟩ | ⟨goes, arm⟩
  · rw [died] at answered
    cases answered
  · rw [arm] at answered
    have falls : ¬ Standing (events ++ [.call nr]) := by
      intro stands
      rw [(stopsAt_iff attended few).mpr stands] at goes
      cases goes
    obtain ⟨activity, counted⟩ := h.countWork_kept (Nr.ofWord nr)
    have after : g.watch = { h.watch with activity, stopPending := false } := by
      unfold Host.arm at answered
      split at answered
      · rw [serve_watch answered, counted]
        rfl
      · cases answered
    rw [after]
    refine ⟨attended.named, attended.guarded, attended.alive, fun stands => absurd stands falls,
      fun pending => Bool.noConfusion pending⟩

end Steps

theorem attended_nil {h : Host} (named : h.haveStopThread = true) (guarded : h.guarded = true)
    (alive : h.dead = false) (none : h.stopPending = false) : h.watch.Attended [] := by
  refine ⟨named, guarded, alive, fun stands => absurd stands standing_nil, fun pending => ?_⟩
  rw [show h.watch.stopPending = false from none] at pending
  cases pending

section Call

variable {start h : Host} {events : List WatchEvent}

theorem InCall.attended (begins : start.watch.Attended [])
    (call : InCall AsksAfresh start events h) (few : works events < 2 ^ 64) :
    h.watch.Attended events := by
  have fewer : ∀ {events e}, works (events ++ [e]) < 2 ^ 64 → works events < 2 ^ 64 := by
    intro events e few
    rw [works_append] at few
    omega
  induction call with
  | starts => exact begins
  | runs _ same ih =>
    rw [same]
    exact ih few
  | ask why _ afresh ih => exact attended_ask (ih (fewer few)) afresh why
  | cancel _ ih => exact attended_cancel (ih (fewer few))
  | work _ ih => exact attended_work (ih (fewer few))
  | call _ answered ih => exact attended_call (ih (fewer few)) few answered

/-- In a call that begins with no stop pending, and in which no stop is asked for while an older
one is pending that the guest has worked past, a system call stops the guest just when an ask
stands, and is answered otherwise. -/
theorem InCall.stops (named : start.haveStopThread = true) (guarded : start.guarded = true)
    (alive : start.dead = false) (none : start.stopPending = false)
    (call : InCall AsksAfresh start events h) (nr : UInt64) (a : Args)
    (few : works (events ++ [.call nr]) < 2 ^ 64) :
    (Standing (events ++ [.call nr]) →
        h.dispatchInner nr a = .error (.died (.guest h.stopWhy) h.memory)) ∧
      (¬ Standing (events ++ [.call nr]) →
        h.dispatchInner nr a = { h.countWork (Nr.ofWord nr) with stopPending :=
          false }.arm nr a) := by
  have before : works events < 2 ^ 64 := by
    rw [works_append] at few
    omega
  have attended := call.attended (attended_nil named guarded alive none) before
  rw [← stopsAt_iff attended few]
  rcases h.dispatchInner_cases attended.alive attended.guarded nr a with ⟨stops, died⟩ | ⟨goes, arm⟩
  · exact ⟨fun _ => died, fun goes => absurd stops goes⟩
  · refine ⟨fun stops => ?_, fun _ => arm⟩
    rw [goes] at stops
    cases stops

end Call

/-! ## An ask that is lost -/

/-- A host in a call, its one thread running and nothing asked. -/
def resting : Host where
  threads := .new
  context := ⟨0, 0, 0, 0⟩
  memory := ⟨.onePage, ⟨⟨0, 0⟩, ⟨0, 0⟩, ⟨0, 0⟩, ⟨0, 0⟩, ⟨0, 0⟩, ⟨0, 0⟩, ⟨0, 0⟩, ⟨0, 0⟩⟩, 0, []⟩
  fs := { files := [], handles := [] }
  programBreak := 0
  haveStopThread := true

/-- "stuck". -/
def stuck : Bytes := [0x73, 0x74, 0x75, 0x63, 0x6b]

/-- A guest that only yields is stopped at its next yield. -/
theorem InCall.stops_yield : (resting.stop (some stuck)).dispatchInner 24 {} =
      .error (.died (.guest "stuck") resting.memory) := by
  have call : InCall AsksAfresh resting [.ask (some stuck)] (resting.stop (some stuck)) :=
    .ask (some stuck) .starts Bool.noConfusion
  exact (stops rfl rfl rfl rfl call 24 {} (by decide)).1
    ⟨[], some stuck, [.call 24], rfl, by decide⟩

/-- Asked, worked past, and asked again before the next system call: the second ask stands, and
the guest is not stopped. -/
theorem InCall.lost :
    resting.haveStopThread = true ∧ resting.guarded = true ∧ resting.dead = false ∧
      resting.stopPending = false ∧
      ∃ h, InCall (fun _ => True) resting [.ask (some stuck), .work, .ask (some stuck)] h ∧
        Standing ([.ask (some stuck), .work, .ask (some stuck)] ++ [.call 24]) ∧
        ∃ g, h.dispatchInner 24 {} = .ok (0, g) := by
  refine ⟨rfl, rfl, rfl, rfl, _, .ask (some stuck) (.work (.ask (some stuck) .starts trivial))
    trivial, ⟨[.ask (some stuck), .work], some stuck, [.call 24], rfl, by decide⟩, _, rfl⟩

end Host

end MiniBox
