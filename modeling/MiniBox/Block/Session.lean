import MiniBox.Block.Restore

/-!
# A sealed block at work

`Event` is what may happen to a sealed block: the operations of a frame, the two ends of
an epoch, loads and deltas of any stream.  A page goes through each of them as
`Event.keeps` says, so a fact about pages is proved once for each kind of change and not
once for each event.

`Block.Sound` is what a sealed block satisfies whatever happens to it, relative to the
pages invisible and the bytes present at the seal.  One thing can break it: a delta that
declares a page clean with bytes that are not the ones it was sealed with.  No delta the
block writes does (`Block.delta_declares`).
-/

namespace MiniBox

open Lib

/-! ## Events -/

variable {c : Control} {b : Block} {P : Nat → Page → Prop}

inductive Event where
  | op (op : Op)
  | epochBegin
  | deltaSave (forward : Bool)
  | loadState (stream : Bytes)
  | deltaApply (stream : Bytes)

def Event.run (b : Block) : Event → Block
  | .op o => o.run b
  | .epochBegin => b.epochBegin.2
  | .deltaSave forward => (b.deltaSave forward).2
  | .loadState stream => (b.loadState stream).2
  | .deltaApply stream => (b.deltaApply stream).2

/-- What the event declares clean is `base`. -/
def Event.Declares (base : Nat → PageBytes → Prop) : Event → Prop
  | .deltaApply stream => MiniBox.Declares base (deltaData stream)
  | _ => True

theorem Event.declares_any (e : Event) : e.Declares fun _ _ => True := by
  cases e with
  | deltaApply stream => exact fun _ _ _ => trivial
  | op o => trivial
  | epochBegin => trivial
  | deltaSave forward => trivial
  | loadState stream => trivial

/-- What no event changes. -/
structure Control.Same (b c : Control) : Prop where
  addr : c.addr = b.addr
  shift : c.groupShift = b.groupShift
  is_sealed : c.isSealed = b.isSealed
  swapped : c.swappedIn = b.swappedIn
  hash : c.hash = b.hash

theorem Control.Same.refl (b : Control) : b.Same b := ⟨rfl, rfl, rfl, rfl, rfl⟩

theorem Control.Same.npages {b : Control} (h : b.Same c) : c.npages = b.npages :=
  npages_congr h.addr

theorem Pending.planTurns_toControl (s : Pending) (entries : List (Nat × Nat)) :
    (entries.foldl planTurn s).block.toControl = s.block.toControl := by
  induction entries generalizing s with
  | nil => rfl
  | cons entry rest ih =>
    rw [List.foldl_cons, ih, planTurn]
    split_ifs <;> simp [onPage]

theorem Block.guestWrite_toControl (b : Block) (i : Nat) (bytes : PageBytes) :
    (b.guestWrite i bytes).toControl = b.toControl := by
  rcases b.guestWrite_cases i bytes with same | ⟨-, -, ⟨-, poked⟩ | ⟨-, c, served, poked⟩⟩
  · rw [same]
  · rw [poked]
    rfl
  · have control := b.trip_toControl (fun _ => true) true i
    rw [served] at control
    rw [poked]
    exact control

/-- An operation of a frame changes nothing but the plan. -/
theorem Op.toControl (b : Block) (op : Op) :
    ∃ plan, (op.run b).toControl = { b.toControl with plan } := by
  rcases op.cases b with steps | ⟨i, bytes, is⟩ | ⟨dest, capacity, is⟩ | ⟨first, past, is⟩ | is
  · exact ⟨b.plan, by rw [steps.toControl]⟩
  · exact ⟨b.plan, by rw [is, Block.guestWrite_toControl]⟩
  · rw [is]
    rcases b.statePlan_cases dest capacity with refused | ⟨room, -, -, -, -, accepted⟩
    · exact ⟨b.plan, by rw [refused]⟩
    · rw [accepted]
      exact ⟨_, by rw [Pending.close_toControl, Pending.planTurns_toControl]⟩
  · rw [is]
    cases plan : b.plan with
    | none => exact ⟨b.plan, by rw [Block.planFill_none plan]⟩
    | some plan' => exact ⟨b.plan, by rw [Block.planFill_eq plan, Block.takes_toControl]⟩
  · exact ⟨none, by rw [is, Block.planFinish_toControl]⟩

theorem Op.same (b : Block) (op : Op) : b.toControl.Same (op.run b).toControl := by
  obtain ⟨plan, is⟩ := op.toControl b
  rw [is]
  exact ⟨rfl, rfl, rfl, rfl, rfl⟩

theorem Event.same (b : Block) (e : Event) : b.toControl.Same (e.run b).toControl := by
  cases e with
  | op o => exact o.same b
  | epochBegin =>
    cases is_sealed : b.isSealed with
    | false =>
      have refused : b.epochBegin.2 = b := by simp [Block.epochBegin, is_sealed]
      show b.toControl.Same b.epochBegin.2.toControl
      rw [refused]
      exact .refl _
    | true =>
      show b.toControl.Same b.epochBegin.2.toControl
      rw [Block.epochBegin_toControl is_sealed]
      exact ⟨rfl, rfl, rfl, rfl, rfl⟩
  | deltaSave forward =>
    show b.toControl.Same (b.deltaSave forward).2.toControl
    rw [Block.deltaSave_toControl]
    exact .refl _
  | loadState stream =>
    rcases b.loadState_steps stream with ⟨same, -⟩ | ⟨touched, t, steps, ends⟩
    · show b.toControl.Same (b.loadState stream).2.toControl
      rw [same]
      exact .refl _
    · show b.toControl.Same (b.loadState stream).2.toControl
      rw [ends, Pending.close_toControl, Pending.Steps.toControl steps]
      have prologue : b.toControl.Same b.loadPrologue.toControl := by
        rw [Block.loadPrologue_toControl]
        exact ⟨rfl, rfl, rfl, rfl, rfl⟩
      exact ⟨prologue.addr, prologue.shift, prologue.is_sealed, prologue.swapped, prologue.hash⟩
  | deltaApply stream =>
    have any : MiniBox.Declares (fun _ _ => True) (deltaData stream) := fun _ _ _ => trivial
    rcases Block.deltaApply_steps (b := b) any with ⟨touched, same⟩ | ⟨t, steps, ends⟩
    · show b.toControl.Same (b.deltaApply stream).2.toControl
      rw [same]
      exact ⟨rfl, rfl, rfl, rfl, rfl⟩
    · show b.toControl.Same (b.deltaApply stream).2.toControl
      have control := Pending.Steps.toControl steps
      have closed : t.close.epochClear.toControl =
          { t.block.toControl with epochActive := false } := by
        simp [Block.epochClear]
      rw [ends, closed, control]
      exact ⟨rfl, rfl, rfl, rfl, rfl⟩

/-! ## Pages -/

theorem Block.epochClear_keeps (clear : ∀ i p, P i p → P i (epochClearPage ⟨p, {}⟩).page)
    (h : ∀ i, P i (b.page i)) (i : Nat) :
    P i (b.epochClear.page i) := by
  show P i (b.epochForget.page i)
  rw [epochForget_page]
  split_ifs
  · exact clear i _ (h i)
  · exact h i

/-- A change looks at what is mapped, planned and tracked, not at the load flag. -/
theorem Page.Change.untouched {touched : Bool} {p q : Page}
    (h : p.Change { c with loadTouched := touched } q) : p.Change c q := by
  cases h with
  | called called =>
    refine .called ?_
    cases called with
    | protect allocates => exact .protect allocates
    | keep allocated => exact .keep allocated
    | drop allocated => exact .drop allocated
  | release swapped tracked => exact .release swapped tracked
  | write bytes opens => exact .write bytes opens
  | plan slot => exact .plan slot
  | take wait i => exact .take wait i
  | note => exact .note

theorem Reload.mono {base good : PageBytes → Prop} (weaker : ∀ bytes, base bytes → good bytes)
    {i : Nat} {x y : Track} (h : Reload base i x y) : Reload good i x y := by
  cases h with
  | snapshot => exact .snapshot
  | store bytes present => exact .store bytes present
  | rewrite bytes dirty => exact .rewrite bytes dirty
  | revert is => exact .revert is
  | back declared visible present => exact .back (weaker _ declared) visible present
  | again => exact .again
  | shadow => exact .shadow
  | restatus status => exact .restatus status

/-- What each kind of change keeps of a page, every event keeps of all pages. -/
theorem Event.keeps {e : Event} {base : Nat → PageBytes → Prop} (declares : e.Declares base)
    (change : ∀ i p q, p.Change b.toControl q → P i p → P i q)
    (write : ∀ i bytes, e = .op (.write i bytes) → b.Unheard i → P i (b.page i) →
      P i { b.page i with mem := bytes }) (opened : ∀ i p, P i p → P i (p.opened b.swappedIn))
    (saved : ∀ i q, (b.page i).Saved q → P i (b.page i) → P i q)
    (clear : ∀ i p, P i p → P i (epochClearPage ⟨p, {}⟩).page)
    (reload : ∀ i x y, Reload (base i) i x y → P i x.page → P i y.page)
    (initial : ∀ i, P i (b.page i)) (i : Nat) : P i ((e.run b).page i) := by
  have refreshed : ∀ i p, P i p → P i (p.refreshed b.swappedIn) := fun i p => change i p _ .note
  cases e with
  | op o => exact o.keeps_all change (fun i bytes is => write i bytes (congrArg op is)) initial i
  | epochBegin =>
    show P i (b.epochBegin.2.page i)
    cases is_sealed : b.isSealed with
    | false =>
      have refused : b.epochBegin.2 = b := by simp [Block.epochBegin, is_sealed]
      rw [refused]
      exact initial i
    | true =>
      rw [Block.epochBegin_page is_sealed]
      split_ifs
      · exact opened i _ (initial i)
      · exact initial i
  | deltaSave forward => exact saved i _ (b.deltaSave_page forward i) (initial i)
  | loadState stream =>
    have prologue : ∀ i, P i (b.loadPrologue.page i) := by
      intro i
      unfold Block.loadPrologue
      refine Block.epochClear_keeps clear (fun i => ?_) i
      split_ifs
      · exact (Block.planFinish_changes { b with loadTouched := false } i).keeps
          (fun p q step => change i p q step.untouched) (initial i)
      · exact initial i
    rcases b.loadState_steps stream with ⟨same, -⟩ | ⟨touched, t, steps, ends⟩
    · show P i ((b.loadState stream).2.page i)
      rw [same]
      exact initial i
    · show P i ((b.loadState stream).2.page i)
      have swapped : b.loadPrologue.swappedIn = b.swappedIn := by
        rw [Block.loadPrologue_toControl]
      have fresh : ∀ i p, P i p → P i (p.refreshed b.loadPrologue.swappedIn) := by
        rw [swapped]
        exact refreshed
      have none : ∀ i x y, Reload (fun _ => False) i x y → P i x.page → P i y.page :=
        fun i x y step => reload i x y (step.mono fun _ => False.elim)
      have ran := Pending.Steps.keeps steps fresh none prologue
      have closed : ∀ i p, P i p → P i (p.refreshed t.block.swappedIn) := by
        rw [Pending.Steps.toControl steps]
        exact fresh
      rw [ends]
      exact Pending.close_keeps closed ran i
  | deltaApply stream =>
    show P i ((b.deltaApply stream).2.page i)
    rcases Block.deltaApply_steps (b := b) declares with ⟨touched, same⟩ | ⟨t, steps, ends⟩
    · rw [same]
      exact initial i
    · have ran := Pending.Steps.keeps steps refreshed reload initial
      have closed : ∀ i p, P i p → P i (p.refreshed t.block.swappedIn) := by
        rw [Pending.Steps.toControl steps]
        exact refreshed
      rw [ends]
      exact Block.epochClear_keeps clear (Pending.close_keeps closed ran) i

/-! ## Records and protections -/

theorem Event.recorded (h : b.Recorded) (e : Event) : (e.run b).Recorded := by
  cases e with
  | op o => exact o.recorded h
  | epochBegin => exact h.epochBegin
  | deltaSave forward => exact h.deltaSave forward
  | loadState stream =>
    show (b.loadState stream).2.Recorded
    rcases b.loadState_steps stream with ⟨same, -⟩ | ⟨touched, t, steps, ends⟩
    · rw [same]
      exact h
    · rw [ends]
      have start : Block.Recorded { b.loadPrologue with loadTouched := touched } :=
        h.loadPrologue.congr rfl (.inl rfl) rfl rfl
      exact (Pending.Steps.recorded steps start).close
  | deltaApply stream =>
    show (b.deltaApply stream).2.Recorded
    have any : MiniBox.Declares (fun _ _ => True) (deltaData stream) := fun _ _ _ => trivial
    rcases Block.deltaApply_steps (b := b) any with ⟨touched, same⟩ | ⟨t, steps, ends⟩
    · rw [same]
      exact h.congr rfl (.inl rfl) rfl rfl
    · rw [ends]
      have start : Block.Recorded { b with loadTouched := true } :=
        h.congr rfl (.inl rfl) rfl rfl
      exact (Pending.Steps.recorded steps start).close.epochClear

theorem Block.touch_inStep (b : Block) (touched : Bool) :
    b.InStep Page.Looser { b with loadTouched := touched } :=
  .of_pages rfl rfl rfl rfl (fun _ _ => rfl) fun _ => .refl _

theorem Block.epochClear_inStep (b : Block) : b.InStep Page.Looser b.epochClear := by
  have control : b.epochClear.toControl = { b.toControl with epochActive := false } := by
    simp [epochClear]
  have page : ∀ i, b.epochClear.page i = b.epochForget.page i := fun _ => rfl
  refine .of_pages (by rw [control]) (by rw [control]) (by rw [control]) b.epochForget_os
    (fun i hi => ?_) fun i => ?_
  · rw [page, epochForget_page, if_neg (by omega)]
  · rw [page, epochForget_page]
    split_ifs
    · exact .of_same rfl rfl rfl rfl rfl
    · exact .refl _

theorem Block.loadPrologue_inSteps (h : b.Recorded) : InSteps Page.Looser b b.loadPrologue := by
  have untouched : Recorded { b with loadTouched := false } :=
    h.congr rfl (.inl rfl) rfl rfl
  unfold loadPrologue
  refine .tail ?_ (epochClear_inStep _)
  split_ifs
  · exact .trans (.single (b.touch_inStep false)) (planFinish_inSteps untouched)
  · exact .single (b.touch_inStep false)

/-- On a 4 KiB host every event keeps the OS's view in step. -/
theorem Event.inSteps (recorded : b.Recorded) (settled : ∀ i, (b.page i).Settled b.swappedIn)
    (e : Event) :
    Block.InSteps Page.Wider b (e.run b) := by
  cases e with
  | op o => exact (o.inSteps recorded).wider
  | epochBegin => exact b.epochBegin_inSteps.wider
  | deltaSave forward =>
    exact Block.InSteps.wider (.single (Block.deltaSave_inStep recorded settled forward))
  | loadState stream =>
    show Block.InSteps Page.Wider b (b.loadState stream).2
    rcases b.loadState_steps stream with ⟨same, -⟩ | ⟨touched, t, steps, ends⟩
    · rw [same]
    · have prologue := (Block.loadPrologue_inSteps recorded).tail
        (b.loadPrologue.touch_inStep touched)
      rw [ends]
      exact .trans (Block.InSteps.wider prologue)
        (Pending.Steps.inSteps steps (Pending.ordered_none _))
  | deltaApply stream =>
    show Block.InSteps Page.Wider b (b.deltaApply stream).2
    have any : MiniBox.Declares (fun _ _ => True) (deltaData stream) := fun _ _ _ => trivial
    rcases Block.deltaApply_steps (b := b) any with ⟨touched, same⟩ | ⟨t, steps, ends⟩
    · rw [same]
      exact Block.InSteps.wider (.single (b.touch_inStep touched))
    · have start : Block.InSteps Page.Wider b { b with loadTouched := true } :=
        Block.InSteps.wider (.single (b.touch_inStep true))
      have clear : Block.InSteps Page.Wider t.close t.close.epochClear :=
        Block.InSteps.wider (.single t.close.epochClear_inStep)
      rw [ends]
      exact (start.trans (Pending.Steps.inSteps steps (Pending.ordered_none _))).trans clear

/-! ## Soundness -/

/-- A sealed block between two events.  `inv` are the pages invisible at the seal, `base`
the bytes there. -/
structure Block.Sound (inv : Nat → Bool) (base : Nat → PageBytes) (b : Block) : Prop where
  is_sealed : b.isSealed = true
  hash : b.hash.length = 32
  recorded : b.Recorded
  unmapped : b.Unmapped
  settled : ∀ i, (b.page i).Settled b.swappedIn
  kept : ∀ i, (b.page i).Kept (inv i) (base i)

/-- What a visible page may be declared clean with: the bytes it was sealed with. -/
def SealedWith (inv : Nat → Bool) (base : Nat → PageBytes) (i : Nat) (bytes : PageBytes) : Prop :=
  inv i = false → bytes = base i

section Sound

variable {inv : Nat → Bool} {base : Nat → PageBytes} {b : Block}

/-- Every page stays true to what it was sealed with through an event. -/
theorem Event.kept (tight : b.Tight) (recorded : b.Recorded)
    (settled : ∀ i, (b.page i).Settled b.swappedIn) (kept : ∀ i, (b.page i).Kept (inv i) (base i))
    {e : Event} (declares : e.Declares (SealedWith inv base)) (i : Nat) :
    ((e.run b).page i).Settled b.swappedIn ∧ ((e.run b).page i).Kept (inv i) (base i) :=
  keeps declares
    (P := fun i p => p.Settled b.swappedIn ∧ p.Kept (inv i) (base i))
    (fun _ _ _ change ⟨settled, kept⟩ => ⟨settled.change change, kept.change change settled⟩)
    (fun _ bytes _ unheard ⟨settled, kept⟩ =>
      ⟨settled.change (tight.write unheard bytes), kept.change (tight.write unheard bytes) settled⟩)
    (fun _ _ ⟨settled, kept⟩ => ⟨settled.opened, kept.opened _⟩)
    (fun i _ saved ⟨settled, kept⟩ =>
      ⟨settled.saved (recorded.consistent i) saved, kept.saved (recorded.consistent i) saved⟩)
    (fun _ _ ⟨settled, kept⟩ =>
      ⟨⟨settled.hotDirty, settled.hotHeld, settled.hotUnheld, settled.unheld, settled.unmapped⟩,
        kept.congr rfl rfl rfl rfl⟩)
    (fun _ _ _ reload ⟨settled, kept⟩ =>
      ⟨settled.reload reload, kept.reload (fun visible _ good => good visible) reload⟩)
    (fun i => ⟨settled i, kept i⟩) i

theorem Block.Sound.event (h : b.Sound inv base) (tight : b.Tight) {e : Event}
    (declares : e.Declares (SealedWith inv base)) : (e.run b).Sound inv base := by
  have same := e.same b
  have pages := Event.kept tight h.recorded h.settled h.kept declares
  refine ⟨same.is_sealed.trans h.is_sealed, ?_, e.recorded h.recorded, ?_, fun i => ?_,
    fun i => (pages i).2⟩
  · rw [same.hash]
    exact h.hash
  · exact InSteps.unmapped (e.inSteps h.recorded h.settled) h.unmapped
  · rw [same.swapped]
    exact (pages i).1

end Sound

/-! ## Activation -/

variable {b : Block}

theorem Block.activate_cases (b : Block) :
    (∃ active, b.activate = { b with active }) ∨ b.swappedIn = false ∧
      b.activate = { ({ b with swappedIn := true } : Block).refreshAll with active := true } := by
  unfold activate
  split_ifs with active swapped
  · exact .inl ⟨b.active, rfl⟩
  · exact .inl ⟨true, rfl⟩
  · exact .inr ⟨by simpa using swapped, rfl⟩

theorem Block.refreshAll_inStep {L : Page → Page → Prop} (same : ∀ p, L p p) (b : Block) :
    b.InStep L b.refreshAll :=
  refreshRange_inStep same rfl rfl (by omega) fun _ _ => rfl

theorem Block.active_inStep (b : Block) (active : Bool) : b.InStep Page.Looser { b with active } :=
  .of_pages rfl rfl rfl rfl (fun _ _ => rfl) fun _ => .refl _

/-- What is mapped by activation is mapped as its pages want it. -/
theorem Block.activate_guarded (unmapped : b.Unmapped) :
    b.activate.Unmapped ∧ (b.Tight → b.activate.Tight) ∧
      (b.groupShift = 0 → b.Exact → b.activate.Exact) := by
  rcases b.activate_cases with ⟨active, is⟩ | ⟨off, is⟩
  · rw [is]
    exact ⟨unmapped, id, fun _ => id⟩
  · have none := unmapped off
    have closed : ∀ g, ¬ (b.os g).writable = true := fun g => by simp [none g, Prot.writable]
    have start : Unmapped { b with swappedIn := true } := fun contra => Bool.noConfusion contra
    have steps : InSteps Page.Looser { b with swappedIn := true } b.activate := by
      rw [is]
      exact .tail (.single (refreshAll_inStep Page.Looser.refl _)) (active_inStep _ true)
    refine ⟨InSteps.unmapped steps start, fun _ => InSteps.tight steps start ?_,
      fun single _ => InSteps.exact (InSteps.wider steps) start single ?_⟩
    · exact fun k _ writable => absurd writable (closed _)
    · exact fun i writable => absurd writable (closed _)

theorem Block.refreshAll_page (b : Block) (i : Nat) :
    b.refreshAll.page i = b.page i ∨ b.refreshAll.page i = (b.page i).noted := by
  unfold refreshAll
  rw [refreshRange_page]
  split_ifs
  · exact .inr rfl
  · exact .inl rfl

/-- Activation changes nothing about a page but its holds. -/
theorem Block.activate_page (b : Block) (i : Nat) : b.activate.page i = b.page i ∨
      b.activate.swappedIn = true ∧ b.activate.page i = (b.page i).noted := by
  rcases b.activate_cases with ⟨active, is⟩ | ⟨-, is⟩
  · rw [is]
    exact .inl rfl
  · rw [is]
    rcases refreshAll_page { b with swappedIn := true } i with same | noted
    · exact .inl same
    · exact .inr ⟨by simp [refreshAll], noted⟩

theorem Block.activate_same (b : Block) :
    b.activate.addr = b.addr ∧ b.activate.groupShift = b.groupShift ∧
      b.activate.isSealed = b.isSealed ∧ b.activate.hash = b.hash ∧
      (b.activate.swappedIn = b.swappedIn ∨ b.activate.swappedIn = true) := by
  rcases b.activate_cases with ⟨active, is⟩ | ⟨-, is⟩
  · rw [is]
    exact ⟨rfl, rfl, rfl, rfl, .inl rfl⟩
  · rw [is]
    dsimp only [refreshAll]
    rw [refreshRange_toControl]
    exact ⟨rfl, rfl, rfl, rfl, .inr rfl⟩

theorem Page.Settled.mapped {swappedIn : Bool} {p : Page} (h : p.Settled swappedIn) :
    p.Settled true :=
  ⟨h.hotDirty, h.hotHeld, h.hotUnheld, h.unheld, by simp⟩

theorem Block.activate_settled (h : ∀ i, (b.page i).Settled b.swappedIn) (i : Nat) :
    (b.activate.page i).Settled b.activate.swappedIn := by
  rcases b.activate_page i with same | ⟨swapped, noted⟩
  · rw [same]
    rcases b.activate_same.2.2.2.2 with kept | swapped
    · rw [kept]
      exact h i
    · rw [swapped]
      exact (h i).mapped
  · rw [noted, swapped]
    exact (h i).mapped.noted

theorem Block.Recorded.activate (h : b.Recorded) : b.activate.Recorded := by
  rcases b.activate_cases with ⟨active, is⟩ | ⟨-, is⟩
  · rw [is]
    exact h.congr rfl (.inl rfl) rfl rfl
  · rw [is]
    have mapped : Recorded { b with swappedIn := true } := h.congr rfl (.inl rfl) rfl rfl
    exact (mapped.refreshRange 0 _).congr rfl (.inl rfl) rfl rfl

theorem Block.Sound.activate {inv : Nat → Bool} {base : Nat → PageBytes} (h : b.Sound inv base) :
    b.activate.Sound inv base := by
  obtain ⟨-, -, is_sealed, hash, -⟩ := b.activate_same
  refine ⟨is_sealed.trans h.is_sealed, ?_, h.recorded.activate,
    (activate_guarded h.unmapped).1, activate_settled h.settled, fun i => ?_⟩
  · rw [hash]
    exact h.hash
  · rcases b.activate_page i with same | ⟨-, noted⟩
    · rw [same]
      exact h.kept i
    · rw [noted]
      exact (h.kept i).congr rfl rfl rfl rfl

end MiniBox
