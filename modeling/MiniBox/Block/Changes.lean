import MiniBox.Block.Reload

/-!
# What the tracker's own operations do to a page

Opening an epoch, planning a state, filling and finishing it, and closing an epoch
into a delta, each page by page.  `Page.opened` and `Page.planned` are what the first
two make of one page once the runs of protections are closed.  Each operation is also
in step, so it keeps the OS's view true.
-/

namespace MiniBox

open Lib

/-! ## Opening an epoch -/

variable {b : Block} {s : Pending} {i : Nat} {list : List Nat}

/-- A page of a block whose epoch opens. -/
def Page.opened (swappedIn : Bool) (p : Page) : Page :=
  let q := (shadowNow (epochClearPage ⟨p, {}⟩)).page
  if p.unheldBit then (holdPage (takeUnheld ⟨q, {}⟩)).page.refreshed swappedIn else q

theorem shadowNow_page (x : Track) : (shadowNow x).page =
      { x.page with shadow := if x.page.hotBit then some x.page.mem else x.page.shadow } := by
  unfold shadowNow
  split_ifs <;> rfl

theorem holdPage_page (x : Track) :
    (holdPage x).page = { x.page with held := x.page.held || x.page.epochTracks } := by
  unfold holdPage
  cases tracks : x.page.epochTracks <;> simp

/-- The loop that holds what was mapped writable, seen with the run closed. -/
theorem holdLoop_page (b : Block) (unheld : Nat → Bool) (n j : Nat) :
    (forRange 0 n (fun (s : Pending) i => if unheld i then (s.onPage i holdPage).note i else s)
        ⟨b, none⟩).close.page j =
      if j < n ∧ unheld j = true then (holdPage ⟨b.page j, {}⟩).page.refreshed b.swappedIn
      else b.page j := by
  have loop := Pending.loop_page id (b := b)
    (f := fun s i => if unheld i then (s.onPage i holdPage).note i else s)
    (R := fun i p q => q = if unheld i then (holdPage ⟨p, {}⟩).page.refreshed b.swappedIn else p)
    (fun s i below swapped => by
      dsimp only [id] at below ⊢
      split
      next taken =>
        refine Pending.note_turn below ?_
        rw [swapped, holdPage_page, holdPage_page]
      next kept =>
        exact ⟨below.mono (Nat.le_succ i), rfl, fun _ _ => rfl, rfl⟩)
    (List.pairwise_lt_range' (s := 0) (n := n))
  by_cases hj : j < n
  · have here := loop.1 j (by simpa using hj)
    simpa [forRange, hj] using here
  · rw [if_neg (fun h => hj h.1)]
    exact loop.2 j fun e member => by
      rw [List.mem_range'_1] at member
      dsimp only [id]
      omega

namespace Block

theorem epochOpen_page (b : Block) (j : Nat) : b.epochOpen.page j =
      if j < b.npages then (epochClearPage ⟨b.page j, {}⟩).page else b.page j :=
  b.epochForget_page j

@[simp] theorem epochOpen_toControl (b : Block) :
    b.epochOpen.toControl = { b.toControl with epochActive := true, epochNo := b.epochNo + 1 } := by
  simp [epochOpen]

theorem shadowHot_page (b : Block) (j : Nat) :
    b.shadowHot.page j = if j < b.npages then (shadowNow ⟨b.page j, {}⟩).page else b.page j :=
  b.onAll_page (f := fun _ => shadowNow) (g := fun p => (shadowNow ⟨p, {}⟩).page)
    (fun _ x => by rw [shadowNow_page, shadowNow_page]) j

@[simp] theorem shadowHot_toControl (b : Block) : b.shadowHot.toControl = b.toControl :=
  b.onPages_toControl 0 b.npages fun _ => shadowNow

theorem holdUnheld_page (b : Block) (j : Nat) : b.holdUnheld.page j =
      if j < b.npages ∧ (b.page j).unheldBit = true then
        (holdPage (takeUnheld ⟨b.page j, {}⟩)).page.refreshed b.swappedIn
      else b.page j := by
  have taken := b.onAll_page (f := fun _ => takeUnheld) (g := fun p => (takeUnheld ⟨p, {}⟩).page)
    (fun _ _ => rfl) j
  unfold holdUnheld
  dsimp only
  rw [holdLoop_page, onPages_toControl, taken]
  by_cases hj : j < b.npages
  · simp only [hj, if_true, true_and]
    split_ifs with unheld
    · rfl
    · ext <;> simp [takeUnheld, unheld]
  · simp [hj]

@[simp] theorem holdUnheld_toControl (b : Block) : b.holdUnheld.toControl = b.toControl := by
  unfold holdUnheld
  rw [Pending.close_toControl]
  refine forRange_inv (P := fun s : Pending => s.block.toControl = b.toControl) (by simp) ?_
  intro s i _ _ same
  split
  · rw [Pending.note_toControl]
    exact same
  · exact same

theorem epochBegin_eq (is_sealed : b.isSealed = true) :
    b.epochBegin.2 = b.epochOpen.shadowHot.holdUnheld := by
  simp [epochBegin, is_sealed]

theorem epochBegin_toControl (is_sealed : b.isSealed = true) : b.epochBegin.2.toControl =
      { b.toControl with epochActive := true, epochNo := b.epochNo + 1 } := by
  simp [epochBegin_eq is_sealed]

theorem epochBegin_page {b : Block} (is_sealed : b.isSealed = true) (j : Nat) :
    b.epochBegin.2.page j =
      if j < b.npages then (b.page j).opened b.swappedIn else b.page j := by
  have npages : b.epochOpen.npages = b.npages := Control.npages_congr (by simp)
  have npages' : b.epochOpen.shadowHot.npages = b.npages := by rw [shadowHot_toControl, npages]
  have swapped : b.epochOpen.shadowHot.swappedIn = b.swappedIn := by simp
  rw [epochBegin_eq is_sealed, holdUnheld_page, npages', swapped, shadowHot_page, npages,
    epochOpen_page]
  by_cases hj : j < b.npages
  · simp only [hj, if_true, true_and, shadowNow_page, epochClearPage_page, Page.opened]
  · simp only [hj, if_false, false_and]

end Block

/-- What opening an epoch changes on a page that is not held by it: its lists forget the
page, and a hot page's shadow is the page as it is now. -/
theorem Page.opened_eq (swappedIn : Bool) (p : Page) : ∃ held unheldBit, p.opened swappedIn =
      { p with
        epochDirty := if p.epochBit then false else p.epochDirty
        epochBit := false
        statBit := false
        shadow := if p.hotBit then some p.mem else p.shadow
        held, unheldBit } := by
  unfold opened
  dsimp only
  cases p.unheldBit <;> cases swappedIn <;>
    simp [takeUnheld, shadowNow_page, holdPage_page, refreshed, noted]

/-! ## Planning a state -/

/-- A page that enters a planned state at `slot`. -/
def Page.planned (slot : Nat) (swappedIn : Bool) (p : Page) : Page :=
  if p.planCanHold then
    { p with
      planSlot := UInt32.ofNat slot
      planHold := .owed
      held := p.held || !p.hot }.refreshed swappedIn
  else { p with planSlot := UInt32.ofNat slot }

theorem planPage_page (i slot : Nat) (x : Track) : (planPage i slot x).page =
      if x.page.planCanHold then
        { x.page with
          planSlot := UInt32.ofNat slot
          planHold := .owed
          held := x.page.held || !x.page.hot }
      else { x.page with planSlot := UInt32.ofNat slot } := by
  unfold planPage Page.planCanHold planCopyPage
  dsimp only
  cases statusTracked x.page.status <;> simp

/-- One turn of the loop that plans the pages. -/
def Pending.planTurn (s : Pending) (entry : Nat × Nat) : Pending :=
  let held := (s.block.page entry.1).planCanHold
  let s := s.onPage entry.1 (planPage entry.1 entry.2)
  if held then s.note entry.1 else s

theorem Pending.planTurn_turn {entry : Nat × Nat} (below : s.Below entry.1) :
    Turn (fun p q => q = p.planned entry.2 s.block.swappedIn) entry.1 s (s.planTurn entry) := by
  have raw := close_page_of_not_covers below.not_covers
  unfold planTurn
  dsimp only
  split
  next held =>
    refine note_turn below ?_
    rw [← raw] at held
    rw [planPage_page, Page.planned, if_pos held, if_pos held]
  next held =>
    refine onPage_turn below ?_
    rw [← raw] at held
    rw [planPage_page, Page.planned, if_neg held, if_neg held]

namespace Block

/-- What a plan call answers: a refusal that changes nothing, or the block with the plan
open and its pages entered. -/
theorem statePlan_cases (b : Block) (dest : Option (Nat → PageBytes)) (capacity : Nat) :
    b.statePlan dest capacity = (0, b) ∨
      ∃ room, dest = some room ∧ b.isSealed = true ∧ b.plan = none ∧
        b.stateHeaderSize + b.statePages.length * pageSize ≤ capacity ∧
        b.statePlan dest capacity =
          (b.stateHeaderSize, (b.statePages.zipIdx.foldl Pending.planTurn
              ⟨{ b with
                  plan := some { head := b.stateHeader, room, list := b.statePages }
                  shared := { b.shared with copies := [] } }, none⟩).close) := by
  unfold statePlan
  split
  · exact .inl rfl
  next room =>
    split
    · exact .inl rfl
    next allowed =>
      split
      · exact .inl rfl
      next fits =>
        simp only [Bool.or_eq_true, Bool.not_eq_true', not_or, Bool.not_eq_false,
          Control.planActive, Option.isSome_iff_ne_none, ne_eq, not_not] at allowed
        exact .inr ⟨room, rfl, allowed.1, allowed.2, Nat.not_lt.mp fits, rfl⟩

theorem statePages_ascending (b : Block) :
    b.statePages.zipIdx.Pairwise fun d e : Nat × Nat => d.1 < e.1 := by
  have sorted : b.statePages.Pairwise (· < ·) :=
    List.pairwise_lt_range.filter _
  have firsts : (b.statePages.zipIdx.map Prod.fst).Pairwise (· < ·) := by
    rw [List.zipIdx_map_fst]
    exact sorted
  exact List.pairwise_map.mp firsts

theorem mem_statePages : i ∈ b.statePages ↔
      i < b.npages ∧ (b.page i).dirtyMap = true ∧ (b.page i).invisible = false := by
  simp [statePages]

/-! ## Copies, and the end of a plan -/

/-- Pages copied into the plan's buffer, in any order. -/
theorem takes_page (b : Block) (wait : Bool) (list : List Nat) (j : Nat) :
    (list.foldl (fun (b : Block) i => b.onPage i (planTake wait i)) b).page j =
      if j ∈ list then (planTake wait j ⟨b.page j, {}⟩).page else b.page j := by
  induction list generalizing b with
  | nil => simp
  | cons i rest ih =>
    rw [List.foldl_cons, ih, onPage_page]
    by_cases here : j = i
    · subst here
      have twice : ∀ hold : PlanHold, (hold.taken wait).taken wait = hold.taken wait := by
        intro hold
        cases hold <;> cases wait <;> rfl
      simp only [if_true, List.mem_cons, true_or, planTake_page, twice, ite_self]
    · simp [here]

theorem planFinish_page {plan : Plan} (is : b.plan = some plan) (j : Nat) : b.planFinish.2.page j =
      if j ∈ plan.list then (planTake true j ⟨b.page j, {}⟩).page.refreshed b.swappedIn
      else b.page j := by
  have drained : b.planDrain =
      plan.list.foldl (fun (b : Block) i => b.onPage i (planTake true i)) b := by
    unfold planDrain
    rw [is]
  unfold planFinish
  rw [is]
  dsimp only
  rw [Pending.notes_page (Pending.ordered_none _), Pending.close_none rfl]
  simp only [drained, takes_page, takes_toControl]
  split_ifs <;> rfl

end Block

theorem Pending.notes_toControl (s : Pending) (list : List Nat) :
    (list.foldl note s).block.toControl = s.block.toControl := by
  induction list generalizing s with
  | nil => rfl
  | cons i rest ih => rw [List.foldl_cons, ih, note_toControl]

theorem Block.planFinish_toControl (b : Block) :
    b.planFinish.2.toControl = { b.toControl with plan := none } := by
  unfold planFinish
  split
  next none =>
    rw [← none]
  next plan is =>
    dsimp only
    rw [Pending.close_toControl, Pending.notes_toControl, planDrain_toControl]

/-! ## Closing an epoch -/

/-- A hot page once `get_hot_epoch` looked at it. -/
def Page.looked (p : Page) : Page := (getHotEpochPage ⟨p, {}⟩).page

/-- What closing an epoch makes of a page: it is looked at if it is hot, and a page
written often enough goes hot. -/
inductive Page.Saved (p : Page) : Page → Prop where
  | left : Saved p p
  | warmed (heat : UInt8) (seen : UInt16) : Saved p { p.looked with heat, seen }
  | heated (heat : UInt8) (seen : UInt16) : p.looked.mayHeat →
      Saved p { p.looked with heat, seen }.heated

namespace Block

theorem getHotEpoch_page (b : Block) (j : Nat) :
    b.getHotEpoch.page j = if j < b.npages then (b.page j).looked else b.page j :=
  b.onAll_page (f := fun _ => getHotEpochPage) (g := Page.looked)
    (fun _ x => by simp only [Page.looked, getHotEpochPage_page, pageCool_page]) j

@[simp] theorem getHotEpoch_toControl (b : Block) : b.getHotEpoch.toControl = b.toControl :=
  b.onPages_toControl 0 b.npages fun _ => getHotEpochPage

theorem deltaSave_page (b : Block) (forward : Bool) (j : Nat) :
    (b.page j).Saved ((b.deltaSave forward).2.page j) := by
  have looked := b.getHotEpoch_page j
  have npages : b.getHotEpoch.npages = b.npages := by rw [getHotEpoch_toControl]
  have only : (b.page j).Saved (b.getHotEpoch.page j) := by
    rw [looked]
    split_ifs
    · exact .warmed (b.page j).looked.heat (b.page j).looked.seen
    · exact .left
  unfold deltaSave
  split
  · exact .left
  · dsimp only
    split
    · exact only
    · by_cases hj : j < b.npages
      · rw [if_pos hj] at looked
        have written := b.getHotEpoch.onPages_inside
          (f := fun _ => heatWrittenPage b.getHotEpoch.epochNo)
          (R := fun _ p q => ∃ heat seen, q = { p with heat, seen } ∨
            p.mayHeat ∧ q = { p with heat, seen }.heated)
          (fun i x _ => by
            obtain ⟨heat, seen, same | ⟨may, -, hot⟩⟩ :=
              heatWrittenPage_page b.getHotEpoch.epochNo x
            · exact ⟨heat, seen, .inl same⟩
            · exact ⟨heat, seen, .inr ⟨may, hot⟩⟩)
          (Nat.zero_le j) (show j < 0 + b.getHotEpoch.npages by omega)
        rw [looked] at written
        obtain ⟨heat, seen, same | ⟨may, hot⟩⟩ := written
        · rw [heatWrittenPages, same]
          exact .warmed heat seen
        · rw [heatWrittenPages, hot]
          exact .heated heat seen may
      · rw [heatWrittenPages, onPages_outside _ _ (by omega)]
        exact only

@[simp] theorem deltaSave_toControl (b : Block) (forward : Bool) :
    (b.deltaSave forward).2.toControl = b.toControl := by
  unfold deltaSave
  split
  · rfl
  · dsimp only
    split
    · exact b.getHotEpoch_toControl
    · rw [heatWrittenPages, onPages_toControl, getHotEpoch_toControl]

theorem deltaSave_os (b : Block) (forward : Bool) : (b.deltaSave forward).2.os = b.os := by
  have looked : b.getHotEpoch.os = b.os := b.onPages_os 0 b.npages fun _ => getHotEpochPage
  unfold deltaSave
  split
  · rfl
  · dsimp only
    split
    · exact looked
    · rw [heatWrittenPages, onPages_os, looked]

theorem deltaSave_outside (forward : Bool) (hi : b.npages ≤ i) :
    (b.deltaSave forward).2.page i = b.page i := by
  have npages : b.getHotEpoch.npages = b.npages := by rw [getHotEpoch_toControl]
  have looked : b.getHotEpoch.page i = b.page i := by
    rw [getHotEpoch_page, if_neg (by omega)]
  unfold deltaSave
  split
  · rfl
  · dsimp only
    split
    · exact looked
    · rw [heatWrittenPages, onPages_outside _ _ (by omega), looked]

/-! ## In step -/

/-- Pages changed by `L` and nothing told to the OS. -/
theorem InStep.of_pages {L : Page → Page → Prop} {c : Block} (addr : c.addr = b.addr)
    (shift : c.groupShift = b.groupShift) (swapped : c.swappedIn = b.swappedIn) (os : c.os = b.os)
    (outside : ∀ i, b.npages ≤ i → c.page i = b.page i) (pages : ∀ i, L (b.page i) (c.page i)) :
    b.InStep L c :=
  ⟨addr, shift, swapped, outside, fun g => .inr ⟨by rw [os], fun _ k _ _ => pages k⟩⟩

end Block

/-- A page whose status, dirtiness, heat and holds are the same. -/
theorem Page.Looser.of_same {p q : Page} (status : q.status = p.status)
    (hold : q.planHold = p.planHold) (hot : q.hot = p.hot) (dirty : q.dirty = p.dirty)
    (held : q.held = p.held) : p.Looser q := by
  have prot : q.nativeProt = p.nativeProt :=
    nativeProt_congr status hold hot fun _ => by rw [dirty, held]
  refine ⟨.of_status status fun writable => ?_, ?_, ?_⟩
  · rw [prot]
    exact writable
  · rw [status]
    exact id
  · rw [hold]
    exact id

namespace Block

theorem epochOpen_inStep (b : Block) : b.InStep Page.Looser b.epochOpen := by
  refine .of_pages (by simp) (by simp) (by simp) b.epochForget_os (fun i hi => ?_) fun i => ?_
  · rw [epochOpen_page, if_neg (by omega)]
  · rw [epochOpen_page]
    split_ifs
    · exact .of_same rfl rfl rfl rfl rfl
    · exact .refl _

theorem shadowHot_inStep (b : Block) : b.InStep Page.Looser b.shadowHot := by
  refine .of_pages (by simp) (by simp) (by simp) (b.onPages_os _ _ _) (fun i hi => ?_) fun i => ?_
  · rw [shadowHot_page, if_neg (by omega)]
  · rw [shadowHot_page]
    split_ifs
    · rw [shadowNow_page]
      exact .of_same rfl rfl rfl rfl rfl
    · exact .refl _

theorem holdUnheld_inSteps (b : Block) : InSteps Page.Looser b b.holdUnheld := by
  have page := b.onAll_page (f := fun _ => takeUnheld) (g := fun p => (takeUnheld ⟨p, {}⟩).page)
    (fun _ _ => rfl)
  have taken : b.InStep Page.Looser (b.onPages 0 b.npages fun _ => takeUnheld) := by
    refine .of_pages (by simp) (by simp) (by simp) (b.onPages_os _ _ _) (fun i hi => ?_) fun i => ?_
    · rw [page, if_neg (by omega)]
    · rw [page]
      split_ifs
      · exact .of_same rfl rfl rfl rfl rfl
      · exact .refl _
  unfold holdUnheld
  refine (forRange_inv (P := fun s : Pending => s.Ordered ∧ InSteps Page.Looser b s.close)
    ⟨Pending.ordered_none _, .single taken⟩ ?_).2
  intro s i _ hi ⟨ordered, steps⟩
  have inside : i < s.block.npages := by
    have addr := (InSteps.rest steps).1
    rw [Pending.close_toControl] at addr
    rw [Control.npages_congr addr]
    simpa using hi
  split
  · exact ⟨Pending.Ordered.note (s := s.onPage i holdPage) ordered i,
      steps.tail (Pending.note_inStep Page.Looser.refl ordered inside)⟩
  · exact ⟨ordered, steps⟩

theorem epochBegin_inSteps (b : Block) : InSteps Page.Looser b b.epochBegin.2 := by
  unfold epochBegin
  split
  · exact .refl
  · exact .trans (.tail (.single b.epochOpen_inStep) (shadowHot_inStep _))
      (holdUnheld_inSteps _)

theorem statePlan_inSteps (b : Block) (dest : Option (Nat → PageBytes)) (capacity : Nat) :
    InSteps Page.Looser b (b.statePlan dest capacity).2 := by
  rcases b.statePlan_cases dest capacity with refused | ⟨room, -, -, -, -, accepted⟩
  · rw [refused]
  rw [accepted]
  have inside : ∀ entry ∈ b.statePages.zipIdx, entry.1 < b.npages := fun entry member =>
    (mem_statePages.mp (List.fst_mem_of_mem_zipIdx member)).1
  generalize start : Pending.mk _ none = s
  have steps : s.Ordered ∧ InSteps Page.Looser b s.close := by
    rw [← start]
    refine ⟨Pending.ordered_none _, .single ?_⟩
    exact .of_pages rfl rfl rfl rfl (fun _ _ => rfl) fun _ => .refl _
  clear start
  dsimp only
  generalize b.statePages.zipIdx = entries at inside ⊢
  induction entries generalizing s with
  | nil => exact steps.2
  | cons entry rest ih =>
    obtain ⟨ordered, steps⟩ := steps
    have here : entry.1 < s.block.npages := by
      have addr := (InSteps.rest steps).1
      rw [Pending.close_toControl] at addr
      rw [Control.npages_congr addr]
      exact inside entry (by simp)
    refine ih _ ?_ fun e he => inside e (by simp [he])
    unfold Pending.planTurn
    dsimp only
    split
    · exact ⟨Pending.Ordered.note (s := s.onPage _ _) ordered _,
        steps.tail (Pending.note_inStep Page.Looser.refl ordered here)⟩
    next held =>
      refine ⟨ordered, steps.tail (Pending.onPage_inStep Page.Looser.refl here ?_)⟩
      rw [planPage_page, if_neg held]
      exact .of_same rfl rfl rfl rfl rfl

end Block

/-- Letting a page go only loosens it. -/
theorem planTake_looser (wait : Bool) (i : Nat) (x : Track) :
    x.page.Looser (planTake wait i x).page := by
  rw [planTake_page]
  refine ⟨.of_status rfl fun writable => ?_, id, fun free => ?_⟩
  · rw [Page.nativeProt_writable, Bool.and_eq_true] at writable ⊢
    refine ⟨writable.1, ?_⟩
    rw [eq_of_beq writable.2]
    rfl
  · rw [free]
    rfl

theorem Block.takes_inSteps (inside : ∀ i ∈ list, i < b.npages) (wait : Bool) :
    InSteps Page.Looser b (list.foldl (fun (b : Block) i => b.onPage i (planTake wait i)) b) := by
  induction list generalizing b with
  | nil => exact .refl
  | cons i rest ih =>
    have here : b.InStep Page.Looser (b.onPage i (planTake wait i)) :=
      Pending.onPage_inStep (s := ⟨b, none⟩) Page.Looser.refl (inside i (by simp))
        (planTake_looser wait i ⟨b.page i, b.shared⟩)
    exact .head here (ih fun j hj => inside j (by simp [hj]))

theorem Pending.notes_inSteps (ordered : s.Ordered) (inside : ∀ i ∈ list, i < s.block.npages) :
    Block.InSteps Page.Looser s.close (list.foldl note s).close := by
  induction list generalizing s with
  | nil => exact .refl
  | cons i rest ih =>
    have here : s.close.InStep Page.Looser (s.note i).close := by
      have noted := note_inStep (f := id) Page.Looser.refl ordered (inside i (by simp))
      simpa [onPage, Block.onPage_id] using noted
    refine .head here (ih (ordered.note i) fun j hj => ?_)
    rw [note_toControl]
    exact inside j (by simp [hj])

theorem Block.planFill_inSteps (h : b.Recorded) (first past : Nat) :
    InSteps Page.Looser b (b.planFill first past).2 := by
  cases is : b.plan with
  | none =>
    rw [planFill_none is]
  | some plan =>
    rw [planFill_eq is]
    refine takes_inSteps (fun i hi => h.planned plan is i ?_) false
    exact List.mem_of_mem_take (List.mem_of_mem_drop hi)

theorem Block.planFinish_inSteps (h : b.Recorded) : InSteps Page.Looser b b.planFinish.2 := by
  unfold planFinish
  split
  · exact .refl
  next plan is =>
    have inside := h.planned plan is
    have drained : InSteps Page.Looser b b.planDrain := by
      unfold planDrain
      rw [is]
      exact takes_inSteps inside true
    have closed : b.planDrain.InStep Page.Looser { b.planDrain with plan := none } :=
      .of_pages rfl rfl rfl rfl (fun _ _ => rfl) fun _ => .refl _
    refine (drained.tail closed).trans ?_
    refine Pending.notes_inSteps (s := ⟨{ b.planDrain with plan := none }, none⟩)
      (Pending.ordered_none _) fun i hi => ?_
    have npages : b.planDrain.npages = b.npages := by rw [planDrain_toControl]
    exact npages ▸ inside i hi

end MiniBox
