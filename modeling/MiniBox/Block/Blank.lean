import MiniBox.Block.Compose
import MiniBox.Block.Observe

/-!
# Free pages

`mmap` hands out free pages as they are and trusts them to read zero.  The calls keep it so:
a page that is unmapped is zeroed, unless it is clean against a baseline of zeros, and such a
page reads zero if every write to it was heard.

A load and a delta put statuses back for every page, and bytes for visible pages only; and a
delta gives bytes to a page whatever its status is by then.  `Deed.Careful` is what they, and
the writes, must keep to.
-/

namespace MiniBox

open Lib

/-! ## Pages -/

/-- A free page reads zero. -/
def Page.Blank (p : Page) : Prop := p.status = stFree → p.mem = .zero

/-- A visible page whose allocation changed in the epoch is one of its data pages. -/
def Page.Listed (p : Page) : Prop := p.invisible = false → p.statBit = true → p.epochDirty = true

section Pages

variable {invisible : Bool} {base : PageBytes} {p q : Page}

namespace Page

theorem Blank.of_core (h : p.Blank) (core : q.core = p.core) : q.Blank := by
  intro free
  have status : q.status = p.status := congrArg Core.status core
  have mem : q.mem = p.mem := congrArg Core.mem core
  rw [mem]
  exact h (status.symm.trans free)

theorem Blank.of_allocated (allocated : p.status ≠ stFree) : p.Blank :=
  fun free => absurd free allocated

/-- A page is left as it is only if it reads zero. -/
theorem Kept.freed_zero (h : p.Kept invisible base) (planActive epochActive : Bool) :
    (p.freed planActive epochActive).mem = .zero := by
  obtain ⟨-, -, -, mem⟩ := p.freed_fields planActive epochActive
  rw [mem]
  split_ifs with skips
  · simp only [Bool.and_eq_true, Bool.not_eq_true', beq_iff_eq] at skips
    obtain ⟨⟨clean, visible⟩, zero⟩ := skips
    have visible' : invisible = false := h.flag.symm.trans visible
    have copied : (maybeSnapshot ⟨p, {}⟩).page.Kept invisible base := Page.Kept.snapshot h
    rw [h.clean visible' clean, ← copied.baseline visible' .zero (by rw [Page.baseline, zero])]
  · rfl

theorem Blank.change {c : Control} (change : p.Change c q) (kept : p.Kept invisible base)
    (h : p.Blank) : q.Blank := by
  cases change with
  | called called =>
    cases called with
    | @protect status allocates =>
      refine .of_allocated ?_
      have core := Page.refreshed_core c.swappedIn (p.restatus c.epochActive status)
      rw [Page.restatus_core] at core
      rw [show Page.status _ = status from congrArg Core.status core]
      exact allocates
    | keep allocated =>
      refine .of_allocated ?_
      have core := Page.refreshed_core c.swappedIn (p.freed c.planActive c.epochActive)
      rw [Page.freed_core] at core
      rw [show Page.status _ = p.status from congrArg Core.status core]
      exact allocated
    | drop allocated =>
      intro _
      have core := Page.refreshed_core c.swappedIn
        ((p.freed c.planActive c.epochActive).restatus c.epochActive stFree)
      rw [Page.restatus_core] at core
      exact (congrArg Core.mem core).trans (kept.freed_zero _ _)
  | release _ tracked =>
    have core := Page.released_core c.planActive c.epochActive p
    refine .of_allocated ?_
    rw [show Page.status _ = p.status from congrArg Core.status core]
    exact statusTracked_ne_free tracked
  | write bytes opens =>
    simp only [Page.opens, Bool.and_eq_true] at opens
    exact .of_allocated (statusTracked_ne_free opens.1)
  | plan slot => exact h.of_core (Page.planned_core ..)
  | take wait i => exact h.of_core (planTake_core wait i ⟨p, {}⟩)
  | note => exact h.of_core (Page.refreshed_core ..)

/-- A call leaves the bytes of a page, or zeroes them. -/
theorem Called.zero {c : Control} (called : p.Called c q) (zero : p.mem = .zero) :
    q.mem = .zero := by
  have freed : (p.freed c.planActive c.epochActive).mem = .zero := by
    have mem := congrArg Core.mem (freed_core c.planActive c.epochActive p)
    refine mem.trans ?_
    simp [Core.freed, core, zero]
  cases called with
  | @protect status _ =>
    have core := refreshed_core c.swappedIn (p.restatus c.epochActive status)
    rw [restatus_core] at core
    exact (congrArg Core.mem core).trans zero
  | keep _ =>
    have core := refreshed_core c.swappedIn (p.freed c.planActive c.epochActive)
    exact (congrArg Core.mem core).trans freed
  | drop _ =>
    have core := refreshed_core c.swappedIn
      ((p.freed c.planActive c.epochActive).restatus c.epochActive stFree)
    rw [restatus_core] at core
    exact (congrArg Core.mem core).trans freed

theorem Listed.refreshed (h : p.Listed) (swappedIn : Bool) : (p.refreshed swappedIn).Listed := by
  cases swappedIn <;> exact h

theorem Listed.restatus (h : p.Listed) (epochActive : Bool) (status : UInt8) :
    (p.restatus epochActive status).Listed := by
  unfold Page.Listed at *
  simp only [Page.restatus, noteStatus_page, epochNoteStatusChange_page]
  grind

theorem Listed.freed (h : p.Listed) (planActive epochActive : Bool) :
    (p.freed planActive epochActive).Listed := by
  unfold Page.Listed at *
  simp only [Page.freed, freePage, setDirty_page, zeroPage_page, epochNoteStatusChange_page,
    maybeSnapshot_page, planCapture_page]
  grind

theorem Listed.change {c : Control} (change : p.Change c q) (h : p.Listed) : q.Listed := by
  cases change with
  | called called =>
    cases called with
    | protect _ => exact (h.restatus _ _).refreshed _
    | keep _ => exact (h.freed _ _).refreshed _
    | drop _ => exact ((h.freed _ _).restatus _ _).refreshed _
  | release _ _ =>
    unfold Listed at *
    simp only [released, tripPage, noteUnheld_page, setDirty_page, planCapture_page,
      epochCapture_page, maybeSnapshot_page]
    grind
  | write bytes _ => exact h
  | plan slot =>
    unfold planned
    split_ifs
    · exact Listed.refreshed (p := { p with
        planSlot := UInt32.ofNat slot, planHold := .owed, held := p.held || !p.hot }) h _
    · exact h
  | take wait i =>
    rw [planTake_page]
    exact h
  | note => exact h.refreshed _

theorem Saved.listed (saved : p.Saved q) (h : p.Listed) : q.Listed := by
  have looked : p.looked.Listed := by
    unfold Listed at *
    simp only [looked, getHotEpochPage_page, pageCool_page]
    grind
  cases saved with
  | left => exact h
  | warmed heat seen => exact looked
  | heated heat seen _ => exact looked

end Page

theorem Reload.listed {good : PageBytes → Prop} {i : Nat} {x y : Track} (reload : Reload good i x y)
    (h : x.page.Listed) : y.page.Listed := by
  have shadowed : ∀ x : Track, x.page.Listed → (shadowRewritten x).page.Listed := by
    intro x h
    unfold shadowRewritten
    split_ifs <;> exact h
  cases reload with
  | snapshot =>
    rw [maybeSnapshot_page]
    exact h
  | store bytes _ =>
    rw [setDirty_page]
    exact h
  | rewrite bytes _ => exact h
  | revert _ =>
    rw [setDirty_page]
    exact h
  | back _ _ _ =>
    rw [setDirty_page]
    exact h
  | again =>
    rw [setDirty_page]
    exact h
  | shadow => exact shadowed x h
  | restatus status =>
    rw [noteStatus_page]
    exact h

end Pages

/-! ## The run of one block -/

/-- What is done to a block. -/
inductive Deed where
  | activate
  | markInvisible (addr : Range)
  | op (o : Op)
  | sealNow
  | epochBegin
  | deltaSave
  | saveState
  | loadState (stream : Bytes)
  | deltaApply (stream : Bytes)

def Deed.run (b : Block) : Deed → Block
  | .activate => b.activate
  | .markInvisible addr => (b.markInvisible addr).2
  | .op o => o.run b
  | .sealNow => b.sealNow.2
  | .epochBegin => b.epochBegin.2
  | .deltaSave => (b.deltaSave true).2
  | .saveState => b
  | .loadState stream => (b.loadState stream).2
  | .deltaApply stream => (b.deltaApply stream).2

/-- What a block has saved. -/
structure Saves where
  states : List Bytes := []
  deltas : List Bytes := []

def Deed.saves (b : Block) (s : Saves) : Deed → Saves
  | .deltaSave =>
    match (b.deltaSave true).1 with
    | .ok delta => { s with deltas := delta :: s.deltas }
    | .error _ => s
  | .saveState =>
    match b.saveState with
    | .ok state => { s with states := state :: s.states }
    | .error _ => s
  | _ => s

/-- What is loaded or applied was saved before, and goes through. -/
def Deed.Own (b : Block) (s : Saves) : Deed → Prop
  | .loadState stream => stream ∈ s.states ∧ ∃ rest, (b.loadState stream).1 = .ok rest
  | .deltaApply stream => stream ∈ s.deltas ∧ ∃ rest, (b.deltaApply stream).1 = .ok rest
  | _ => True

/-- The runs of a block from its construction on, of deeds that are `allowed`. -/
inductive Career (allowed : Block → Deed → Prop) (groupShift : Nat) : Saves → Block → Prop where
  | new {addr : Range} {b : Block} : Block.new addr groupShift = some b →
      Career allowed groupShift {} b
  | step {s : Saves} {b : Block} (d : Deed) : Career allowed groupShift s b → d.Own b s →
      allowed b d → Career allowed groupShift (d.saves b s) (d.run b)

/-- What keeps the free pages zero.  A write that the host does not hear of goes to a page
that is dirty already; a load has free no invisible page that holds anything; a delta gives
bytes to no free page without a status, and frees no invisible page that holds anything. -/
def Deed.Careful (b : Block) : Deed → Prop
  | .op (.write i _) => b.Unheard i → (b.page i).invisible = false → (b.page i).dirty = true
  | .loadState stream => ∀ statii dirtii rest, b.readHeader stream = .ok (statii, dirtii, rest) →
      ∀ i, i < b.npages → (b.page i).invisible = true → statii.getD i 0 = stFree →
        (b.page i).mem = .zero
  | .deltaApply stream => ∀ parts rest, partsRead stream = .ok (parts, rest) →
      (∀ e ∈ parts.data, e.bytes ≠ .zero → (∀ st ∈ parts.status, st.idx ≠ e.page) →
        (b.page e.page).status ≠ stFree) ∧
      ∀ st ∈ parts.status, st.status = stFree → (b.page st.idx).invisible = true →
        (b.page st.idx).mem = .zero
  | _ => True

/-! ## Blocks whose free pages read zero -/

/-- `inv` are the invisible pages, `base` the baseline. -/
structure Block.Steady (inv : Nat → Bool) (base : Nat → PageBytes) (b : Block) : Prop where
  recorded : b.Recorded
  settled : ∀ i, (b.page i).Settled b.swappedIn
  kept : ∀ i, (b.page i).Kept (inv i) (base i)
  blank : ∀ i, (b.page i).Blank
  listed : ∀ i, (b.page i).Listed

theorem Page.Kept.rewritten {invisible : Bool} {base : PageBytes} {p : Page}
    (h : p.Kept invisible base) (dirty : p.invisible = false → p.dirty = true) (bytes : PageBytes) :
    Kept invisible base { p with mem := bytes } := by
  refine ⟨h.flag, fun visible clean => ?_, h.snap, h.baseline⟩
  have clean : p.dirty = false := clean
  rw [dirty (h.flag.trans visible)] at clean
  cases clean

section Steady

variable {inv : Nat → Bool} {base : Nat → PageBytes} {b : Block}

namespace Block.Steady

variable (h : b.Steady inv base)
include h

theorem op {o : Op} (careful : (Deed.op o).Careful b) : (o.run b).Steady inv base := by
  have pages := o.keeps_all
    (P := fun i p => p.Settled b.swappedIn ∧ p.Kept (inv i) (base i) ∧ p.Blank ∧ p.Listed)
    (fun i p q change ⟨settled, kept, blank, listed⟩ =>
      ⟨settled.change change, kept.change change settled, blank.change change kept,
        listed.change change⟩)
    (fun i bytes is unheard ⟨settled, kept, _, listed⟩ => by
      subst is
      exact ⟨⟨settled.hotDirty, settled.hotHeld, settled.hotUnheld, settled.unheld,
        settled.unmapped⟩, kept.rewritten (careful unheard) bytes,
        .of_allocated (statusTracked_ne_free unheard.tracked), listed⟩)
    fun i => ⟨h.settled i, h.kept i, h.blank i, h.listed i⟩
  refine ⟨o.recorded h.recorded, fun i => ?_, fun i => (pages i).2.1, fun i => (pages i).2.2.1,
    fun i => (pages i).2.2.2⟩
  rw [(o.same b).swapped]
  exact (pages i).1

/-- An event that is no write, once its pages are known to be blank. -/
theorem event {e : Event} (declares : e.Declares (SealedWith inv base)) (silent : ∀ o, e ≠ .op o)
    (blank : ∀ i, ((e.run b).page i).Blank) : (e.run b).Steady inv base := by
  have pages := Event.keeps declares
    (P := fun i p => p.Settled b.swappedIn ∧ p.Kept (inv i) (base i) ∧ p.Listed)
    (fun i p q change ⟨settled, kept, listed⟩ =>
      ⟨settled.change change, kept.change change settled, listed.change change⟩)
    (fun i bytes is => absurd is (silent _))
    (fun i p ⟨settled, kept, listed⟩ => by
      refine ⟨settled.opened, kept.opened _, ?_⟩
      obtain ⟨held, unheldBit, is⟩ := p.opened_eq b.swappedIn
      rw [is]
      exact fun _ => Bool.noConfusion)
    (fun i q saved ⟨settled, kept, listed⟩ =>
      ⟨settled.saved (h.recorded.consistent i) saved,
        kept.saved (h.recorded.consistent i) saved, saved.listed listed⟩)
    (fun i p ⟨settled, kept, listed⟩ =>
      ⟨⟨settled.hotDirty, settled.hotHeld, settled.hotUnheld, settled.unheld, settled.unmapped⟩,
        kept.congr rfl rfl rfl rfl, fun _ => Bool.noConfusion⟩)
    (fun i x y reload ⟨settled, kept, listed⟩ =>
      ⟨settled.reload reload, kept.reload (fun visible bytes good => good visible) reload,
        reload.listed listed⟩)
    (fun i => ⟨h.settled i, h.kept i, h.listed i⟩)
  refine ⟨e.recorded h.recorded, fun i => ?_, fun i => (pages i).2.1, blank, fun i => (pages i).2.2⟩
  rw [(e.same b).swapped]
  exact (pages i).1

theorem epochBegin : b.epochBegin.2.Steady inv base :=
  h.event (e := .epochBegin) trivial (by simp) fun i =>
    (h.blank i).of_core ((Watch.alike b .epochBegin).core i)

theorem deltaSave (forward : Bool) : (b.deltaSave forward).2.Steady inv base :=
  h.event (e := .deltaSave forward) trivial (by simp) fun i =>
    (h.blank i).of_core ((Watch.alike b (.deltaSave forward)).core i)

theorem activate : b.activate.Steady inv base := by
  have page : ∀ i, (b.activate.page i).Kept (inv i) (base i) ∧ (b.activate.page i).Blank ∧
      (b.activate.page i).Listed := fun i => by
    rcases b.activate_page i with same | ⟨-, noted⟩
    · rw [same]
      exact ⟨h.kept i, h.blank i, h.listed i⟩
    · rw [noted]
      exact ⟨(h.kept i).congr rfl rfl rfl rfl, h.blank i, h.listed i⟩
  exact ⟨h.recorded.activate, activate_settled h.settled, fun i => (page i).1,
    fun i => (page i).2.1, fun i => (page i).2.2⟩

/-! ## Loading and applying what was saved -/

/-- A load of what the block saved as `a`. -/
theorem loadState {a : Block} (saved : a.Steady inv base) (is_sealed : b.isSealed = true)
    (length : a.hash.length = 32) (hash : b.hash = a.hash) (addr : b.addr = a.addr)
    (careful : (Deed.loadState (a.stateHeader ++ a.savedFrom 0)).Careful b) :
    (b.loadState (a.stateHeader ++ a.savedFrom 0)).2.Steady inv base := by
  have npages : b.npages = a.npages := Control.npages_congr addr
  have accepts : a.Accepts b := by
    refine ⟨addr, fun i _ => ?_, fun i _ visible dirty => ?_⟩
    · rw [(h.kept i).flag, (saved.kept i).flag]
    · exact (h.kept i).present dirty ((h.kept i).flag.symm.trans visible)
  obtain ⟨c, loaded, -, restored⟩ := @loadState_saved a b [] accepts saved.recorded h.recorded
    is_sealed length hash
  rw [List.append_nil] at loaded
  refine h.event (e := .loadState _) trivial (by simp) fun i => ?_
  show ((b.loadState (a.stateHeader ++ a.savedFrom 0)).2.page i).Blank
  rcases Nat.lt_or_ge i b.npages with inside | outside
  · rw [loaded]
    have page := restored i (npages ▸ inside)
    intro free
    have freeA : (a.page i).status = stFree := page.status.symm.trans free
    have zeroA := saved.blank i freeA
    cases visible : (b.page i).invisible with
    | true =>
      rw [(page.hidden visible).2]
      refine careful _ _ _ (readHeader_saved length hash addr _) i inside visible ?_
      have byte : a.statusBytes[i]? = some (a.page i).statusMap := by
        unfold statusBytes
        rw [List.getElem?_map, List.getElem?_range (npages ▸ inside)]
        rfl
      rw [List.getD_eq_getElem?_getD, byte, (saved.recorded.consistent i).status]
      exact freeA
    | false =>
      have flag : inv i = false := (h.kept i).flag.symm.trans visible
      have keptA := saved.kept i
      have keptB := h.kept i
      rw [flag] at keptA keptB
      rw [page.mem visible]
      split_ifs with dirty
      · exact zeroA
      · rw [keptB.sealed, ← keptA.clean rfl (by simpa using dirty)]
        exact zeroA
  · have steps := (Event.loadState (a.stateHeader ++ a.savedFrom 0)).inSteps h.recorded h.settled
    have same : (b.loadState (a.stateHeader ++ a.savedFrom 0)).2.page i = b.page i :=
      (InSteps.rest steps).2.2.2 i outside
    rw [same]
    exact h.blank i

end Block.Steady

/-- What a delta of the block keeps to: a page it frees it gives zeros to, if the page is
visible. -/
structure Delta.Proper (inv : Nat → Bool) (base : Nat → PageBytes) {n : Nat} (d : Delta n) :
    Prop where
  declares : Declares (SealedWith inv base) d.data
  zero : ∀ st ∈ d.status, ∀ e ∈ d.data, st.status = stFree → e.page = st.idx → e.bytes = .zero
  covered : ∀ st ∈ d.status, inv st.idx = false → ∃ e ∈ d.data, e.page = st.idx

theorem Block.Steady.deltaApply (h : b.Steady inv base) (is_sealed : b.isSealed = true) {n : Nat}
    (npages : b.npages = n) {d : Delta n} (proper : d.Proper inv base)
    (careful : (Deed.deltaApply d.encode).Careful b) :
    (b.deltaApply d.encode).2.Steady inv base := by
  have fits : fitsPages n := npages ▸ b.fitsPages
  have parts := partsRead_encode d fits []
  rw [List.append_nil] at parts
  obtain ⟨given, freed⟩ := careful _ _ parts
  have declares : Event.Declares (SealedWith inv base) (.deltaApply d.encode) := by
    have read := deltaData_encode d fits []
    rw [List.append_nil] at read
    show Declares _ (deltaData d.encode)
    rw [read]
    exact proper.declares
  refine h.event declares (by simp) fun i => ?_
  show ((b.deltaApply d.encode).2.page i).Blank
  rw [deltaApply_delta is_sealed npages]
  have state := b.applied_state d i
  intro free
  have freeState : (d.onState i (b.page i).state).status = stFree :=
    (congrArg PageState.status state).symm.trans free
  refine (congrArg PageState.mem state).trans ?_
  unfold Delta.onState at freeState ⊢
  cases status : lookup StatusEntry.idx i d.status with
  | none =>
    rw [status] at freeState
    cases data : lookup DataEntry.page i d.data with
    | none =>
      rw [data] at freeState
      exact h.blank i freeState
    | some e =>
      rw [data] at freeState
      obtain ⟨listed, rfl⟩ := mem_of_lookup data
      by_contra bytes
      exact given e listed bytes (lookup_eq_none.mp status) freeState
  | some st =>
    rw [status] at freeState
    obtain ⟨listed, rfl⟩ := mem_of_lookup status
    cases data : lookup DataEntry.page st.idx d.data with
    | none =>
      rw [data] at freeState
      cases visible : (b.page st.idx).invisible with
      | true => exact freed st listed freeState visible
      | false =>
        obtain ⟨e, covers, same⟩ :=
          proper.covered st listed ((h.kept st.idx).flag.symm.trans visible)
        exact absurd same (lookup_eq_none.mp data e covers)
    | some e =>
      rw [data] at freeState
      obtain ⟨listed', same⟩ := mem_of_lookup data
      exact proper.zero st listed e listed' freeState same

/-- The deltas a block saves are proper. -/
theorem Block.Steady.delta_proper (h : b.Steady inv base) :
    b.getHotEpoch.delta.Proper inv base := by
  have recorded : b.getHotEpoch.Recorded :=
    h.recorded.onPages (Nat.le_of_eq (Nat.zero_add _)) getHotEpochPage_faithful
  have saved : ∀ i, (b.page i).Saved (b.getHotEpoch.page i) := by
    intro i
    rw [getHotEpoch_page]
    split_ifs
    · exact .warmed (b.page i).looked.heat (b.page i).looked.seen
    · exact .left
  have small := b.getHotEpoch.npages_lt
  have kept : ∀ i, (b.getHotEpoch.page i).Kept (inv i) (base i) := fun i =>
    (h.kept i).saved (h.recorded.consistent i) (saved i)
  refine ⟨delta_declares kept, ?_, ?_⟩
  · intro st listed e listed' free same
    obtain ⟨i, member, rfl⟩ := List.mem_map.mp listed
    obtain ⟨j, member', rfl⟩ := List.mem_map.mp listed'
    have inside := List.mem_range.mp (List.mem_filter.mp member').1
    rw [DataEntry.page, deltaPage_of_lt (by omega)] at same
    obtain rfl : j = i := same
    exact (h.blank j).of_core (saved j).core free
  · intro st listed visible
    obtain ⟨i, member, rfl⟩ := List.mem_map.mp listed
    obtain ⟨range, stat⟩ := List.mem_filter.mp member
    have inside := List.mem_range.mp range
    have dirty := (saved i).listed (h.listed i) ((kept i).flag.trans visible) stat
    have bit : (b.getHotEpoch.page i).epochBit = true := (recorded.consistent i).epoch.trans dirty
    refine ⟨_, List.mem_map.mpr ⟨i, List.mem_filter.mpr ⟨range, bit⟩, rfl⟩, ?_⟩
    rw [DataEntry.page, deltaPage_of_lt (by omega)]

end Steady

/-! ## Every run -/

/-- A block before its seal. -/
structure Block.Young (b : Block) : Prop where
  unsealed : b.isSealed = false
  idle : b.epochActive = false
  snap : ∀ i, (b.page i).snap = .zero
  steady : b.Steady b.hidden fun _ => .zero

/-- A block after it, with what it has saved.  `o` is the block that was sealed. -/
structure Block.Aged (inv : Nat → Bool) (base : Nat → PageBytes) (o : Control) (s : Saves)
    (b : Block) : Prop where
  is_sealed : b.isSealed = true
  addr : b.addr = o.addr
  hash : b.hash = o.hash
  length : o.hash.length = 32
  steady : b.Steady inv base
  states : ∀ stream ∈ s.states, ∃ a : Block, a.Steady inv base ∧ a.addr = o.addr ∧
    a.hash = o.hash ∧ stream = a.stateHeader ++ a.savedFrom 0
  deltas : ∀ stream ∈ s.deltas, ∃ d : Delta o.npages, stream = d.encode ∧ d.Proper inv base

/-- The flags are the block's own. -/
theorem Block.Steady.rebase {inv : Nat → Bool} {base : Nat → PageBytes} {b : Block}
    (h : b.Steady inv base) : b.Steady b.hidden base := by
  have same : b.hidden = inv := funext fun i => (h.kept i).flag
  rw [same]
  exact h

theorem Block.Young.new {addr : Range} {groupShift : Nat} {b : Block}
    (h : Block.new addr groupShift = some b) : b.Young := by
  have fresh := Fresh.new h
  unfold Block.new at h
  split_ifs at h
  cases h
  exact ⟨rfl, rfl, fun _ => rfl, fresh.recorded, fresh.settled, fun i => (fresh.raw i).kept,
    fun _ _ => rfl, fun _ _ => Bool.noConfusion⟩

section Young

variable {b : Block}

namespace Block.Young

theorem raw (h : b.Young) (i : Nat) : (b.page i).Raw :=
  ⟨h.snap i, (h.steady.kept i).clean⟩

theorem op (h : b.Young) {o : Op} (careful : (Deed.op o).Careful b) : (o.run b).Young := by
  obtain ⟨plan, control⟩ := o.toControl b
  refine ⟨?_, ?_, ?_, (h.steady.op careful).rebase⟩
  · rw [control]
    exact h.unsealed
  · rw [control]
    exact h.idle
  · exact o.keeps_all (P := fun _ p => p.snap = .zero) (fun i p q change => change.snapZero)
      (fun i bytes _ _ zero => zero) h.snap

theorem activate (h : b.Young) : b.activate.Young := by
  have control : b.activate.isSealed = b.isSealed ∧ b.activate.epochActive = b.epochActive := by
    rcases b.activate_cases with ⟨active, is⟩ | ⟨-, is⟩
    · rw [is]
      exact ⟨rfl, rfl⟩
    · rw [is]
      dsimp only [refreshAll]
      rw [refreshRange_toControl]
      exact ⟨rfl, rfl⟩
  refine ⟨control.1.trans h.unsealed, control.2.trans h.idle, fun i => ?_, h.steady.activate.rebase⟩
  rcases b.activate_page i with same | ⟨-, noted⟩
  · rw [same]
    exact h.snap i
  · rw [noted]
    exact h.snap i

theorem markInvisible (h : b.Young) (addr : Range) : (b.markInvisible addr).2.Young := by
  obtain ⟨-, control, page⟩ := b.markInvisible_inStep addr
  have steady := h.steady
  have pages : ∀ i p, p = b.page i ∨ p = (b.page i).hidden.refreshed b.swappedIn → p.snap = .zero ∧
      p.Settled b.swappedIn ∧ p.Kept p.invisible .zero ∧ p.Blank ∧ p.Listed := by
    rintro i p (rfl | rfl)
    · exact ⟨h.snap i, steady.settled i, steady.kept i, steady.blank i, steady.listed i⟩
    · refine ⟨?_, (steady.settled i).hidden.refreshed, ((h.raw i).hidden.refreshed _).kept,
        Page.Blank.of_core (p := (b.page i).hidden) ?_ (Page.refreshed_core _ _),
        Page.Listed.refreshed ?_ _⟩
      · rw [Page.refreshed_snap]
        simp [Page.hidden, h.snap i]
      · have status : (b.page i).hidden.status = (b.page i).status := by simp [Page.hidden]
        have mem : (b.page i).hidden.mem = (b.page i).mem := by simp [Page.hidden]
        intro free
        rw [mem]
        exact steady.blank i (status.symm.trans free)
      · intro visible
        simp [Page.hidden] at visible
  have of := fun i => pages i _ (page i)
  refine ⟨by rw [control]; exact h.unsealed, by rw [control]; exact h.idle, fun i => (of i).1,
    ⟨steady.recorded.markInvisible addr, fun i => ?_, fun i => (of i).2.2.1,
      fun i => (of i).2.2.2.1, fun i => (of i).2.2.2.2⟩⟩
  rw [control]
  exact (of i).2.1

end Block.Young

/-- What a seal leaves of a page. -/
theorem Page.sealing_fields (p : Page) :
    p.sealing.status = p.status ∧ p.sealing.mem = p.mem ∧ p.sealing.statBit = false := by
  unfold sealing
  rw [sealPage_page]
  split_ifs <;> simp

theorem Block.Young.sealNow (h : b.Young) :
    b.sealNow.2.Aged b.hidden (fun i => if i < b.npages then b.image i else .zero)
      b.sealNow.2.toControl {} := by
  obtain ⟨hash, length, is⟩ := sealNow_is h.unsealed
  have page := sealNow_page h.unsealed
  obtain ⟨-, -, swapped, -⟩ := InSteps.rest b.sealNow_inSteps
  have steady := h.steady
  refine ⟨by rw [is], rfl, rfl, by rw [is]; exact length,
    ⟨steady.recorded.sealNow, fun i => ?_, fun i => ?_, fun i => ?_, fun i => ?_⟩, by simp, by simp⟩
  · rw [page, swapped]
    split_ifs
    · exact (steady.settled i).sealing.refreshed
    · exact steady.settled i
  · rw [page]
    split_ifs
    · exact (h.raw i).sealing.refreshed _
    · exact steady.kept i
  · obtain ⟨status, mem, -⟩ := (b.page i).sealing_fields
    rw [page]
    split_ifs
    · refine Page.Blank.of_core (p := (b.page i).sealing) ?_ (Page.refreshed_core _ _)
      intro free
      rw [mem]
      exact steady.blank i (status.symm.trans free)
    · exact steady.blank i
  · obtain ⟨-, -, stat⟩ := (b.page i).sealing_fields
    rw [page]
    split_ifs
    · refine Page.Listed.refreshed ?_ _
      intro _ set
      rw [stat] at set
      cases set
    · exact steady.listed i

end Young

section Aged

variable {inv : Nat → Bool} {base : Nat → PageBytes} {o : Control} {s : Saves} {b c : Block}

namespace Block.Aged

section

variable (h : b.Aged inv base o s)
include h

theorem of_steady (same : b.toControl.Same c.toControl) (steady : c.Steady inv base) :
    c.Aged inv base o s :=
  ⟨same.is_sealed.trans h.is_sealed, same.addr.trans h.addr, same.hash.trans h.hash, h.length,
    steady, h.states, h.deltas⟩

theorem npages : b.npages = o.npages :=
  Control.npages_congr h.addr

theorem activate : b.activate.Aged inv base o s := by
  obtain ⟨addr, -, is_sealed, hash, -⟩ := b.activate_same
  exact ⟨is_sealed.trans h.is_sealed, addr.trans h.addr, hash.trans h.hash, h.length,
    h.steady.activate, h.states, h.deltas⟩

theorem deltaSave : (b.deltaSave true).2.Aged inv base o (Deed.deltaSave.saves b s) := by
  have kept := h.of_steady ((Event.deltaSave true).same b) (h.steady.deltaSave true)
  cases active : b.epochActive with
  | false =>
    have refused : (b.deltaSave true).1 = .error .einval := by simp [Block.deltaSave, active]
    rw [Deed.saves, refused]
    exact kept
  | true =>
    have saved : (b.deltaSave true).1 = .ok b.getHotEpoch.delta.encode := by
      rw [deltaSave_encode h.steady.recorded active]
    rw [Deed.saves, saved]
    refine { kept with deltas := fun stream member => ?_ }
    rcases List.mem_cons.mp member with rfl | old
    · have npages : b.getHotEpoch.npages = o.npages := by
        rw [getHotEpoch_toControl]
        exact h.npages
      rw [← npages]
      exact ⟨_, rfl, h.steady.delta_proper⟩
    · exact h.deltas stream old

theorem saveState : b.Aged inv base o (Deed.saveState.saves b s) := by
  rw [Deed.saves, saveState_eq h.is_sealed]
  refine { h with states := fun stream member => ?_ }
  rcases List.mem_cons.mp member with rfl | old
  · exact ⟨b, h.steady, h.addr, h.hash, rfl⟩
  · exact h.states stream old

end

theorem step (h : b.Aged inv base o s) {d : Deed} (own : d.Own b s)
    (careful : d.Careful b) : (d.run b).Aged inv base o (d.saves b s) := by
  cases d with
  | activate => exact h.activate
  | markInvisible addr =>
    have refused : (b.markInvisible addr).2 = b := by simp [markInvisible, h.is_sealed]
    rw [Deed.run, refused]
    exact h
  | op o => exact h.of_steady (o.same b) (h.steady.op careful)
  | sealNow =>
    have refused : b.sealNow.2 = b := by simp [sealNow, h.is_sealed]
    rw [Deed.run, refused]
    exact h
  | epochBegin => exact h.of_steady (Event.epochBegin.same b) h.steady.epochBegin
  | deltaSave => exact h.deltaSave
  | saveState => exact h.saveState
  | loadState stream =>
    obtain ⟨a, steady, addr, hash, rfl⟩ := h.states stream own.1
    exact h.of_steady ((Event.loadState _).same b)
      (h.steady.loadState steady h.is_sealed (hash ▸ h.length) (h.hash.trans hash.symm)
        (h.addr.trans addr.symm) careful)
  | deltaApply stream =>
    obtain ⟨d, rfl, proper⟩ := h.deltas stream own.1
    exact h.of_steady ((Event.deltaApply _).same b)
      (h.steady.deltaApply h.is_sealed h.npages proper careful)

end Block.Aged

end Aged

theorem Block.Young.step {b : Block} (h : b.Young) {d : Deed} (own : d.Own b {})
    (careful : d.Careful b) :
    ((d.run b).Young ∧ d.saves b {} = {}) ∨
      ∃ inv base o, (d.run b).Aged inv base o (d.saves b {}) := by
  cases d with
  | activate => exact .inl ⟨h.activate, rfl⟩
  | markInvisible addr => exact .inl ⟨h.markInvisible addr, rfl⟩
  | op o => exact .inl ⟨h.op careful, rfl⟩
  | sealNow => exact .inr ⟨_, _, _, h.sealNow⟩
  | epochBegin =>
    have refused : b.epochBegin.2 = b := by simp [epochBegin, h.unsealed]
    rw [Deed.run, refused]
    exact .inl ⟨h, rfl⟩
  | deltaSave =>
    have refused : b.deltaSave true = (.error .einval, b) := by simp [deltaSave, h.idle]
    rw [Deed.run, Deed.saves, refused]
    exact .inl ⟨h, rfl⟩
  | saveState =>
    have refused : b.saveState = .error .einval := by simp [saveState, h.unsealed]
    rw [Deed.run, Deed.saves, refused]
    exact .inl ⟨h, rfl⟩
  | loadState stream => exact absurd own.1 (by simp)
  | deltaApply stream => exact absurd own.1 (by simp)

theorem Career.kept {groupShift : Nat} {s : Saves} {b : Block}
    (h : Career (fun b d => d.Careful b) groupShift s b) :
    (b.Young ∧ s = {}) ∨ ∃ inv base o, b.Aged inv base o s := by
  induction h with
  | new is => exact .inl ⟨.new is, rfl⟩
  | step d _ own careful ih =>
    rcases ih with ⟨young, rfl⟩ | ⟨inv, base, o, aged⟩
    · exact young.step own careful
    · exact .inr ⟨inv, base, o, aged.step own careful⟩

/-- In a careful run every free page reads zero, and still does when a call hands it out. -/
theorem Career.free_zero {groupShift : Nat} {s : Saves} {b : Block}
    (h : Career (fun b d => d.Careful b) groupShift s b) {i : Nat}
    (free : (b.page i).status = stFree) :
    (b.page i).mem = .zero ∧ (∀ addr prot arena noReplace zeroOverlap,
        ((b.mmap addr prot arena noReplace zeroOverlap).2.page i).mem = .zero) ∧
      ∀ addr newSize, ((b.mremap addr newSize).2.page i).mem = .zero := by
  have steady : ∃ inv base, b.Steady inv base := by
    rcases h.kept with ⟨young, -⟩ | ⟨inv, base, o, aged⟩
    · exact ⟨_, _, young.steady⟩
    · exact ⟨inv, base, aged.steady⟩
  obtain ⟨inv, base, steady⟩ := steady
  have zero := steady.blank i free
  have stays : ∀ {c : Block}, MemSteps b c → (c.page i).mem = .zero := by
    intro c steps
    exact steps.keeps (P := fun j p => j = i → p.mem = .zero)
      (fun j p q _ called zero here => called.zero (zero here)) (fun j here => here ▸ zero) i rfl
  exact ⟨zero, fun addr prot arena noReplace zeroOverlap => stays (b.mmap_steps _ _ _ _ _),
    fun addr newSize => stays (b.mremap_steps addr newSize)⟩

/-- A page mapped and written, then unmapped. -/
theorem Career.free_zero_written : ∃ s b, Career (fun b d => d.Careful b) 0 s b ∧
    (b.page 0).status = stFree ∧ (b.page 0).mem = .zero := by
  have made : Block.new (pagesAt 0 1) 0 = some
      ((Block.new (pagesAt 0 1) 0).get Block.new_onePage) :=
    (Option.some_get _).symm
  have career : Career (fun b d => d.Careful b) 0 _ _ := new made
  have active := step .activate career trivial trivial
  have mapped := step (.op (.mmapFixed (pagesAt 0 1) .rw false false)) active trivial trivial
  have written := step (.op (.write 0 (.fill 7))) mapped trivial
    fun unheard => absurd unheard.writable (by decide +kernel)
  have unmapped := step (.op (.munmap (pagesAt 0 1))) written trivial trivial
  exact ⟨_, _, unmapped, by decide +kernel, (free_zero unmapped (by decide +kernel)).1⟩

/-! ## An invisible page given back -/

/-- One page, mapped and invisible. -/
def Block.hiddenPage : Block :=
  ((new (pagesAt 0 1) 0).get new_onePage).setUp
    [.activate, .op (.mmapFixed (pagesAt 0 1) .rw false false), .markInvisible (pagesAt 0 1)]

theorem Block.hiddenPage_built : Built 0 hiddenPage :=
  Built.setUp (.new (Option.some_get _).symm) _

/-- Sealed, and the guest gives the page back. -/
def Block.givenBack : Block := Op.run hiddenPage.sealNow.2 (.munmap (pagesAt 0 1))

/-- The guest maps it again and writes it. -/
def Block.takenAgain : Block :=
  Op.run (Op.run givenBack (.mmapFixed (pagesAt 0 1) .rw false false)) (.write 0 (.fill 7))

/-- Loading the state in which it was free frees it with what it holds. -/
theorem Career.load_frees_written : ∃ s b, Career (fun _ _ => True) 0 s b ∧
    (b.page 0).status = stFree ∧ (b.page 0).mem = .fill 7 := by
  have of := Block.hiddenPage_built.of
  have given : Block.givenBack.Of _ _ _ := of.event (e := .op (.munmap (pagesAt 0 1))) trivial
  have again : Block.takenAgain.Of _ _ _ :=
    (given.event (e := .op (.mmapFixed (pagesAt 0 1) .rw false false)) trivial).event
      (e := .op (.write 0 (.fill 7))) trivial
  have accepts : Block.givenBack.Accepts Block.takenAgain := by
    refine ⟨again.addr.trans given.addr.symm, fun i _ => ?_, fun i _ visible dirty => ?_⟩
    · rw [(again.sound.kept i).flag, (given.sound.kept i).flag]
    · exact (again.sound.kept i).present dirty ((again.sound.kept i).flag.symm.trans visible)
  obtain ⟨c, loaded, -, restored⟩ := @Block.loadState_saved _ _ [] accepts given.sound.recorded
    again.sound.recorded again.sound.is_sealed given.sound.hash (again.hash.trans given.hash.symm)
  rw [List.append_nil] at loaded
  have made : Block.new (pagesAt 0 1) 0 = some
      ((Block.new (pagesAt 0 1) 0).get Block.new_onePage) :=
    (Option.some_get _).symm
  have hidden : Career (fun _ _ => True) 0 {} Block.hiddenPage :=
    .step (.markInvisible (pagesAt 0 1)) (.step (.op (.mmapFixed (pagesAt 0 1) .rw false false))
      (.step .activate (.new made) trivial trivial) trivial trivial) trivial trivial
  have back : Career (fun _ _ => True) 0 {} Block.givenBack :=
    .step (.op (.munmap (pagesAt 0 1))) (.step .sealNow hidden trivial trivial) trivial trivial
  have saved := step .saveState back trivial trivial
  rw [Deed.saves, Block.saveState_eq given.sound.is_sealed] at saved
  have taken : Career (fun _ _ => True) 0
      { states := [Block.givenBack.stateHeader ++ Block.givenBack.savedFrom 0] } Block.takenAgain :=
    .step (.op (.write 0 (.fill 7)))
      (.step (.op (.mmapFixed (pagesAt 0 1) .rw false false)) saved trivial trivial) trivial trivial
  have last := step (.loadState (Block.givenBack.stateHeader ++ Block.givenBack.savedFrom 0))
    taken ⟨List.mem_cons_self, [], by rw [loaded]⟩ trivial
  rw [Deed.run, loaded] at last
  have page := restored 0 (by decide +kernel)
  refine ⟨_, c, last, ?_, ?_⟩
  · rw [page.status]
    decide +kernel
  · exact (page.hidden (by decide +kernel)).2.trans rfl

end MiniBox

