import MiniBox.Block.Moves
import MiniBox.Block.Session

/-!
# From a new block to a sealed one

`Built` is a block the loader made: a new block on which any of the calls allowed before
the seal ran.  Until the seal every page has a zero baseline, and a clean visible page
reads zero.  The seal then makes the image the baseline, and the block it leaves is
`Sound` relative to the pages invisible and the bytes present at that moment.
-/

namespace MiniBox

open Lib

/-! ## What runs before the seal -/

variable {groupShift : Nat} {b : Block} {c : Control} {p q : Page} {swappedIn : Bool}

inductive Setup where
  | activate
  | op (o : Op)
  | mremapMaymove (addr : Range) (newSize : UInt64) (arena : Range) (maymove : Bool)
  | markInvisible (addr : Range)
  | copyFromExternal (src : Bytes) (start : UInt64)

def Setup.run (b : Block) : Setup → Block
  | .activate => b.activate
  | .op o => o.run b
  | .mremapMaymove addr newSize arena maymove => (b.mremapMaymove addr newSize arena maymove).2
  | .markInvisible addr => (b.markInvisible addr).2
  | .copyFromExternal src start => (b.copyFromExternal src start).2

/-- A block on a host whose page is `2 ^ groupShift` machine pages, before its seal. -/
inductive Built (groupShift : Nat) : Block → Prop where
  | new {addr : Range} {b : Block} : Block.new addr groupShift = some b → Built groupShift b
  | step {b : Block} (setup : Setup) : Built groupShift b → Built groupShift (setup.run b)

/-- The calls one after the other. -/
def Block.setUp (b : Block) (calls : List Setup) : Block := calls.foldl Setup.run b

theorem Built.setUp (h : Built groupShift b) (calls : List Setup) :
    Built groupShift (b.setUp calls) := by
  induction calls generalizing b with
  | nil => exact h
  | cons setup rest ih => exact ih (.step setup h)

/-- Pages `first` to `first + count` of a block at the lowest address a block may have. -/
def pagesAt (first count : UInt64) : Range := ⟨0x100000000 + first * 0x1000, count * 0x1000⟩

/-! ## Pages before the seal -/

/-- A page with a zero baseline, which it reads if it is clean. -/
structure Page.Raw (p : Page) : Prop where
  snap : p.snap = .zero
  clean : p.invisible = false → p.dirty = false → p.mem = .zero

theorem Page.Raw.kept {p : Page} (h : p.Raw) : p.Kept p.invisible .zero := by
  refine ⟨rfl, h.clean, ?_, ?_⟩
  · rw [h.snap]
    simp
  · intro _ bytes is
    rw [baseline, h.snap] at is
    exact (Option.some.inj is).symm

theorem Page.refreshed_snap (swappedIn : Bool) (p : Page) :
    (p.refreshed swappedIn).snap = p.snap := by
  cases swappedIn <;> rfl

theorem Page.Change.snapZero (h : p.Change c q) (zero : p.snap = .zero) : q.snap = .zero := by
  cases h with
  | called called =>
    cases called <;> simp [refreshed_snap, restatus, freed, freePage, zero]
  | release _ _ => simp [released, tripPage, zero]
  | write bytes _ => exact zero
  | plan slot =>
    unfold planned
    split_ifs
    · rw [refreshed_snap]
      exact zero
    · exact zero
  | take wait i => simp [zero]
  | note => rw [refreshed_snap, zero]

theorem Page.Raw.change {c : Control} {p q : Page} (change : p.Change c q)
    (settled : p.Settled c.swappedIn) (h : p.Raw) : q.Raw := by
  have kept := h.kept.change change settled
  refine ⟨change.snapZero h.snap, ?_⟩
  rw [kept.flag]
  exact kept.clean

theorem Page.Raw.hostChange {Q : Page → Bool → Prop} (change : p.HostChange c Q q)
    (settled : p.Settled c.swappedIn) (h : p.Raw) : q.Raw := by
  cases change with
  | called called => exact h.change (.called called) settled
  | overwrite invisible bytes _ =>
    refine ⟨?_, ?_⟩ <;> simp [overwritten, overwritePage, h.snap]

/-! ## Blocks before the seal -/

structure Block.Fresh (groupShift : Nat) (b : Block) : Prop where
  unsealed : b.isSealed = false
  shift : b.groupShift = groupShift
  plan : b.plan = none
  recorded : b.Recorded
  unmapped : b.Unmapped
  tight : b.Tight
  exact_ : groupShift = 0 → b.Exact
  settled : ∀ i, (b.page i).Settled b.swappedIn
  raw : ∀ i, (b.page i).Raw
  outside : ∀ i, b.npages ≤ i → b.page i = {}

theorem Block.Recorded.new {addr : Range} {groupShift : Nat} {b : Block}
    (h : Block.new addr groupShift = some b) : b.Recorded := by
  unfold Block.new at h
  split_ifs at h
  cases h
  refine ⟨fun _ => ⟨rfl, rfl, rfl, rfl, by simp, rfl⟩, ?_, ?_, ?_, fun g => ?_, by simp⟩
  · exact (countBelow_eq_zero.mpr fun _ _ => rfl).symm
  · exact (countBelow_eq_zero.mpr fun _ _ => rfl).symm
  · exact (countBelow_eq_zero.mpr fun _ _ => rfl).symm
  · have size := groupSize (addr.size >>> 12).toNat g
    simp only [show (stFree == stFree) = true from rfl, Bool.and_true]
    exact size.symm

theorem Block.Fresh.new {addr : Range} {groupShift : Nat} {b : Block}
    (h : Block.new addr groupShift = some b) : b.Fresh groupShift := by
  have recorded := Recorded.new h
  unfold Block.new at h
  split_ifs at h
  cases h
  have closed : ¬ Prot.none.writable = true := by decide
  refine ⟨rfl, rfl, rfl, recorded, fun _ _ => rfl, ?_, ?_, fun _ => ?_, fun _ => ?_, fun _ _ => rfl⟩
  · exact fun _ _ writable => absurd writable closed
  · exact fun _ _ writable => absurd writable closed
  · exact ⟨by simp, by simp, by simp, by simp, by simp⟩
  · exact ⟨rfl, fun _ _ => rfl⟩

/-- A step that keeps the OS's view in step, the records and each page's invariants. -/
theorem Block.Fresh.of_inSteps {c : Block} (h : b.Fresh groupShift)
    (steps : InSteps Page.Looser b c) (unsealed : c.isSealed = b.isSealed) (plan : c.plan = none)
    (recorded : c.Recorded) (pages : ∀ i, (c.page i).Settled b.swappedIn ∧ (c.page i).Raw) :
    c.Fresh groupShift := by
  obtain ⟨addr, shift, swapped, outside⟩ := InSteps.rest steps
  refine ⟨unsealed.trans h.unsealed, shift.trans h.shift, plan, recorded,
    InSteps.unmapped steps h.unmapped, InSteps.tight steps h.unmapped h.tight, fun single => ?_,
    fun i => ?_, fun i => (pages i).2, fun i hi => ?_⟩
  · exact InSteps.exact (InSteps.wider steps) h.unmapped (h.shift.trans single) (h.exact_ single)
  · rw [swapped]
    exact (pages i).1
  · rw [Control.npages_congr addr] at hi
    rw [outside i hi, h.outside i hi]

theorem Op.plan_none (unsealed : b.isSealed = false) (idle : b.plan = none) (op : Op) :
    (op.run b).plan = none := by
  rcases op.cases b with steps | ⟨i, bytes, is⟩ | ⟨dest, capacity, is⟩ | ⟨first, past, is⟩ | is
  · rw [steps.toControl]
    exact idle
  · rw [is, Block.guestWrite_toControl]
    exact idle
  · rw [is]
    rcases b.statePlan_cases dest capacity with refused | ⟨-, -, is_sealed, -⟩
    · rw [refused]
      exact idle
    · rw [unsealed] at is_sealed
      exact Bool.noConfusion is_sealed
  · rw [is, Block.planFill_none idle]
    exact idle
  · rw [is, Block.planFinish_toControl]

theorem Block.Fresh.op {groupShift : Nat} {b : Block} (h : b.Fresh groupShift) (op : Op) :
    (op.run b).Fresh groupShift :=
  h.of_inSteps (op.inSteps h.recorded) (op.same b).is_sealed (op.plan_none h.unsealed h.plan)
    (op.recorded h.recorded)
    (op.keeps h.tight (P := fun _ p => p.Settled b.swappedIn ∧ p.Raw)
      (fun _ _ _ change ⟨settled, raw⟩ => ⟨settled.change change, raw.change change settled⟩)
      fun i => ⟨h.settled i, h.raw i⟩)

theorem Block.Fresh.host {c : Block} {Q : Nat → Page → Bool → Prop} (h : b.Fresh groupShift)
    (steps : HostSteps Q b c) : c.Fresh groupShift := by
  have control := HostSteps.toControl steps
  refine h.of_inSteps (HostSteps.inSteps steps h.settled) (by rw [control])
    (by rw [control, h.plan])
    (HostSteps.recorded steps h.recorded) ?_
  exact HostSteps.keeps steps (P := fun _ p => p.Settled b.swappedIn ∧ p.Raw)
    (fun _ _ _ change ⟨settled, raw⟩ =>
      ⟨settled.hostChange change, raw.hostChange change settled⟩)
    fun i => ⟨h.settled i, h.raw i⟩

theorem Block.Fresh.activate (h : b.Fresh groupShift) : b.activate.Fresh groupShift := by
  obtain ⟨addr, shift, is_sealed, -, -⟩ := b.activate_same
  obtain ⟨unmapped, tight, exact_⟩ := activate_guarded h.unmapped
  have plan : b.activate.plan = b.plan := by
    rcases b.activate_cases with ⟨active, is⟩ | ⟨-, is⟩
    · rw [is]
    · rw [is]
      dsimp only [refreshAll]
      rw [refreshRange_toControl]
  refine ⟨is_sealed.trans h.unsealed, shift.trans h.shift, plan.trans h.plan, h.recorded.activate,
    unmapped, tight h.tight, fun single => exact_ (h.shift.trans single) (h.exact_ single),
    activate_settled h.settled, fun i => ?_, fun i hi => ?_⟩
  · rcases b.activate_page i with same | ⟨-, noted⟩
    · rw [same]
      exact h.raw i
    · rw [noted]
      exact ⟨(h.raw i).snap, (h.raw i).clean⟩
  · rw [Control.npages_congr addr] at hi
    rcases b.activate_cases with ⟨active, is⟩ | ⟨-, is⟩
    · rw [is]
      exact h.outside i hi
    · rw [is]
      have page := refreshRange_page { b with swappedIn := true } 0 b.npages i
      rw [if_neg (by omega)] at page
      exact page.trans (h.outside i hi)

theorem Block.Recorded.markInvisible (h : b.Recorded) (addr : Range) :
    (b.markInvisible addr).2.Recorded := by
  have hide : ∀ i, Faithful i fun x =>
      { setDirty true x with page := { (setDirty true x).page with invisible := true } } :=
    fun i => (setDirty_faithful i true).comp (setInvisible_faithful i true)
  unfold Block.markInvisible
  split_ifs
  · exact h
  · split
    · exact h
    next start count valid =>
      exact (h.onPages (Control.validate_bounds valid).2 hide).refreshRange start count

/-- A page the host hides. -/
def Page.hidden (p : Page) : Page := { (setDirty true ⟨p, {}⟩).page with invisible := true }

/-- The pages hidden are refreshed with the OS, and nothing else changes. -/
theorem Block.markInvisible_inStep (b : Block) (addr : Range) :
    b.InStep Page.Looser (b.markInvisible addr).2 ∧
      (b.markInvisible addr).2.toControl = b.toControl ∧
      ∀ i, (b.markInvisible addr).2.page i = b.page i ∨
        (b.markInvisible addr).2.page i = (b.page i).hidden.refreshed b.swappedIn := by
  have refused : b.InStep Page.Looser b ∧ b.toControl = b.toControl ∧
      ∀ i, b.page i = b.page i ∨ b.page i = (b.page i).hidden.refreshed b.swappedIn :=
    ⟨.refl Page.Looser.refl b, rfl, fun _ => .inl rfl⟩
  unfold markInvisible
  split_ifs
  · exact refused
  · split
    · exact refused
    next start count valid =>
      dsimp only
      have page : ∀ j, (b.onPages start count fun _ x =>
          { setDirty true x with page := { (setDirty true x).page with invisible :=
            true } }).page j =
          if start ≤ j ∧ j < start + count then (b.page j).hidden else b.page j :=
        b.onPages_page (g := fun _ p => p.hidden) fun _ x => by simp [Page.hidden]
      generalize is : b.onPages start count (fun _ x =>
        { setDirty true x with page := { (setDirty true x).page with invisible := true } }) = c
      rw [is] at page
      have control : c.toControl = b.toControl := by rw [← is, onPages_toControl]
      refine ⟨?_, by rw [refreshRange_toControl, control], fun i => ?_⟩
      · refine refreshRange_inStep Page.Looser.refl (by rw [← is, onPages_os]) control
          (Control.validate_bounds valid).2 fun j hj => ?_
        rw [page, if_neg hj]
      · rw [refreshRange_page_refreshed, control, page]
        split_ifs
        · exact .inr rfl
        · exact .inl rfl

theorem Page.Settled.hidden (h : p.Settled swappedIn) : p.hidden.Settled swappedIn := by
  obtain ⟨dirty, held, unheld, apart, unmapped⟩ := h
  constructor <;> simp only [Page.hidden, setDirty_page] <;> grind

theorem Page.Raw.hidden (h : p.Raw) : p.hidden.Raw := by
  refine ⟨?_, ?_⟩ <;> simp [Page.hidden, h.snap]

theorem Page.Raw.refreshed (h : p.Raw) (swappedIn : Bool) : (p.refreshed swappedIn).Raw := by
  cases swappedIn <;> exact ⟨h.snap, h.clean⟩

theorem Block.Fresh.markInvisible (h : b.Fresh groupShift) (addr : Range) :
    (b.markInvisible addr).2.Fresh groupShift := by
  obtain ⟨step, control, page⟩ := b.markInvisible_inStep addr
  refine h.of_inSteps (.single step) (by rw [control]) (by rw [control, h.plan])
    (h.recorded.markInvisible addr) fun i => ?_
  rcases page i with same | hidden
  · rw [same]
    exact ⟨h.settled i, h.raw i⟩
  · rw [hidden]
    exact ⟨(h.settled i).hidden.refreshed, (h.raw i).hidden.refreshed _⟩

theorem Built.fresh (h : Built groupShift b) : b.Fresh groupShift := by
  induction h with
  | new is => exact .new is
  | step setup _ ih =>
    cases setup with
    | activate => exact ih.activate
    | op o => exact ih.op o
    | mremapMaymove addr newSize arena maymove =>
      exact ih.host (Block.mremapMaymove_steps ih.recorded addr newSize arena maymove)
    | markInvisible addr => exact ih.markInvisible addr
    | copyFromExternal src start => exact ih.host (Block.copyFromExternal_steps _ src start)

/-! ## The seal -/

/-- A page of a block that is sealed, before the last refresh. -/
def Page.sealing (p : Page) : Page := (sealPage (epochClearPage ⟨p, {}⟩)).page

theorem sealPage_page (x : Track) : (sealPage x).page =
      if x.page.dirty && !x.page.invisible then
        { (setDirty false (pageCool x)).page with
          snap := if x.page.mem = .zero then .zero else .none }
      else x.page := by
  unfold sealPage
  split_ifs <;> simp_all

theorem sealPage_faithful (i : Nat) : Faithful i sealPage := by
  have snapped : Faithful i fun x : Track => { x with
      page := { x.page with snap := if x.page.mem = .zero then .zero else .none } } :=
    faithful_of_tally (fun _ _ => rfl) fun _ => rfl
  have clean := ((pageCool_faithful i).comp (setDirty_faithful i false)).comp snapped
  exact clean.ite fun x => x.page.dirty && !x.page.invisible

theorem Page.Settled.sealing (h : p.Settled swappedIn) : p.sealing.Settled swappedIn := by
  obtain ⟨dirty, held, unheld, apart, unmapped⟩ := h
  unfold Page.sealing
  rw [sealPage_page]
  split
  · constructor <;> simp only [setDirty_page, pageCool_page, epochClearPage_page] <;> grind
  · exact ⟨dirty, held, unheld, apart, unmapped⟩

/-- The image at the seal is the baseline. -/
theorem Page.Raw.sealing (h : p.Raw) : p.sealing.Kept p.invisible p.mem := by
  unfold Page.sealing
  rw [sealPage_page]
  split
  · by_cases zero : p.mem = .zero
    · refine ⟨?_, ?_, ?_, ?_⟩ <;> simp [zero, Page.baseline]
    · refine ⟨?_, ?_, ?_, ?_⟩ <;> simp [zero, Page.baseline]
  next drops =>
    refine ⟨rfl, fun _ _ => rfl, ?_, ?_⟩
    · intro _ unsnapped
      rw [epochClearPage_page, h.snap] at unsnapped
      cases unsnapped
    · intro visible bytes is
      have clean : p.dirty = false := by
        cases dirty : p.dirty with
        | false => rfl
        | true => exact absurd (by simp [dirty, visible]) drops
      rw [epochClearPage_page, Page.baseline, h.snap] at is
      rw [h.clean visible clean]
      exact (Option.some.inj is).symm

/-- The block a seal makes of `b`. -/
def Block.sealing (b : Block) : Block := b.epochClear.onPages 0 b.npages fun _ => sealPage

theorem Block.sealNow_eq (unsealed : b.isSealed = false) :
    b.sealNow = (.ok (), { b.sealing.refreshAll with
      isSealed := true, hash := Sha256.digest b.sealing.refreshAll.sealInputs }) := by
  have npages : b.epochClear.npages = b.npages :=
    Control.npages_congr (by simp [epochClear])
  unfold sealNow sealing
  rw [if_neg (by simp [unsealed])]
  dsimp only
  rw [npages]

theorem Block.sealing_page (b : Block) (i : Nat) :
    b.sealing.page i = if i < b.npages then (b.page i).sealing else b.page i := by
  have npages : b.epochClear.npages = b.npages :=
    Control.npages_congr (by simp [epochClear])
  have cleared : b.epochClear.page i = b.epochForget.page i := rfl
  have page := b.epochClear.onAll_page (f := fun _ => sealPage)
    (g := fun p => (sealPage ⟨p, {}⟩).page) (fun _ x => by simp [sealPage_page]) i
  rw [npages] at page
  rw [sealing, page, cleared, epochForget_page]
  split_ifs
  · rfl
  · rfl

theorem Block.sealing_toControl (b : Block) :
    b.sealing.toControl = { b.toControl with epochActive := false } := by
  unfold sealing
  rw [onPages_toControl]
  simp [epochClear]

theorem Block.Recorded.sealNow {b : Block} (h : b.Recorded) : b.sealNow.2.Recorded := by
  have cleared : b.epochClear.npages = b.npages := Control.npages_congr (by simp [Block.epochClear])
  have recorded : b.sealing.Recorded := h.epochClear.onPages (by omega) sealPage_faithful
  cases is_sealed : b.isSealed with
  | false =>
    rw [Block.sealNow_eq is_sealed]
    exact (recorded.refreshRange 0 _).congr rfl (.inl rfl) rfl rfl
  | true =>
    rw [Block.sealNow, if_pos is_sealed]
    exact h

/-- The sealed block, its hash left open. -/
theorem Block.sealNow_is (unsealed : b.isSealed = false) : ∃ hash : Bytes, hash.length = 32 ∧
      b.sealNow.2 = { b.sealing.refreshAll with isSealed := true, hash } :=
  ⟨_, Sha256.digest_length _, by rw [sealNow_eq unsealed]⟩

theorem Block.sealNow_page (unsealed : b.isSealed = false) (i : Nat) : b.sealNow.2.page i =
      if i < b.npages then (b.page i).sealing.refreshed b.swappedIn else b.page i := by
  have control := b.sealing_toControl
  have npages : b.sealing.npages = b.npages := Control.npages_congr (by rw [control])
  rw [sealNow_eq unsealed]
  dsimp only [refreshAll]
  rw [refreshRange_page_refreshed, npages, sealing_page, control]
  split_ifs with inside
  · rfl
  · omega
  · omega
  · rfl

/-- The seal keeps the OS's view in step. -/
theorem Block.sealNow_inSteps (b : Block) : InSteps Page.Looser b b.sealNow.2 := by
  cases is_sealed : b.isSealed with
  | true =>
    rw [sealNow, if_pos is_sealed]
  | false =>
    have control := b.sealing_toControl
    have npages : b.sealing.npages = b.npages := Control.npages_congr (by rw [control])
    have cleared : b.epochClear.npages = b.npages := Control.npages_congr (by simp [epochClear])
    have step : b.epochClear.InStep Page.Looser b.sealing.refreshAll := by
      unfold refreshAll
      rw [npages]
      refine refreshRange_inStep Page.Looser.refl (by rw [sealing, onPages_os])
        (by rw [sealing, onPages_toControl]) (by omega) fun j hj => ?_
      rw [sealing, onPages_outside _ _ hj]
    rw [sealNow_eq is_sealed]
    exact .tail (.tail (.single b.epochClear_inStep) step)
      (.of_pages rfl rfl rfl rfl (fun _ _ => rfl) fun _ => .refl _)

/-- The seal leaves a sound block: what is invisible and what is there become fixed. -/
theorem Block.Fresh.sealed (h : b.Fresh groupShift) :
    b.sealNow.2.Sound (fun i => (b.page i).invisible) (fun i => (b.page i).mem) ∧
      b.sealNow.2.Tight ∧ (groupShift = 0 → b.sealNow.2.Exact) ∧
      b.sealNow.2.groupShift = groupShift ∧ b.sealNow.2.plan = none ∧
      b.sealNow.2.addr = b.addr := by
  have all := b.sealNow_inSteps
  have page := sealNow_page h.unsealed
  obtain ⟨hash, length, is⟩ := sealNow_is h.unsealed
  obtain ⟨addr, shift, same, -⟩ := InSteps.rest all
  refine ⟨⟨?_, ?_, h.recorded.sealNow, InSteps.unmapped all h.unmapped, fun i => ?_, fun i => ?_⟩,
    InSteps.tight all h.unmapped h.tight, fun single => ?_, shift.trans h.shift, ?_, addr⟩
  · rw [is]
  · rw [is]
    exact length
  · rw [page, same]
    split_ifs
    · exact (h.settled i).sealing.refreshed
    · exact h.settled i
  · rw [page]
    split_ifs with inside
    · exact (h.raw i).sealing.refreshed _
    · rw [h.outside i (by omega)]
      exact ⟨rfl, fun _ _ => rfl, by simp, fun _ bytes is => (Option.some.inj is).symm⟩
  · exact InSteps.exact (InSteps.wider all) h.unmapped (h.shift.trans single) (h.exact_ single)
  · rw [is]
    dsimp only [refreshAll]
    rw [refreshRange_toControl, sealing_toControl]
    exact h.plan

end MiniBox
