import MiniBox.Block.Calls
import MiniBox.Block.Delta
import MiniBox.Block.Fault

/-!
# The records agree

The tracker keeps the same facts in several places: a page's status and dirty flag
in the packed maps, its heat and its place in the open epoch in bitmaps, the size of
the epoch's two lists, the hot pages and the free pages of each group in counts.
`Block.Recorded` says that they agree.

A page operation is `Faithful` when it keeps a page's own records in agreement and
moves every count by what it did to the page.  Faithful operations compose, and a
block stays recorded under any loop of them.  The rest of the module goes through
the block operations once.
-/

namespace MiniBox

open Lib

/-! ## One page -/

variable {i start count : Nat} {f : Track → Track} {b c : Block} {s : Pending}

/-- The packed maps and the bitmaps say what the page record says, a hot page is dirty, and
the pages with a shadow are the hot ones. -/
structure Page.Consistent (p : Page) : Prop where
  status : p.statusMap = p.status
  dirty : p.dirtyMap = p.dirty
  hot : p.hotBit = p.hot
  epoch : p.epochBit = p.epochDirty
  hotDirty : p.hot = true → p.dirty = true
  shadow : p.shadow.isSome = p.hot

/-- A consistent page `i` that is counted, in its group if it is free and if it is hot. -/
structure Track.Sane (i : Nat) (x : Track) : Prop where
  consistent : x.page.Consistent
  counted : x.page.status = stFree → 0 < x.shared.groupFree (i >>> groupShiftFree)
  heated : x.page.hot = true → 0 < x.shared.nhot

/-- Every count moved by what happened to page `i`. -/
structure Track.Balanced (i : Nat) (x y : Track) : Prop where
  nhot : y.shared.nhot + x.page.hot.toNat = x.shared.nhot + y.page.hot.toNat
  ndirty : y.shared.epochNdirty + x.page.epochBit.toNat =
    x.shared.epochNdirty + y.page.epochBit.toNat
  nstat : y.shared.epochNstat + x.page.statBit.toNat = x.shared.epochNstat + y.page.statBit.toNat
  free : ∀ g, y.shared.groupFree g + (i >>> groupShiftFree == g && x.page.status == stFree).toNat =
      x.shared.groupFree g + (i >>> groupShiftFree == g && y.page.status == stFree).toNat

theorem Track.Balanced.refl (i : Nat) (x : Track) : x.Balanced i x :=
  ⟨rfl, rfl, rfl, fun _ => rfl⟩

theorem Track.Balanced.trans {x y z : Track} (first : x.Balanced i y) (second : y.Balanced i z) :
    x.Balanced i z := by
  obtain ⟨nhot, ndirty, nstat, free⟩ := first
  obtain ⟨nhot', ndirty', nstat', free'⟩ := second
  refine ⟨by omega, by omega, by omega, fun g => ?_⟩
  have := free g
  have := free' g
  omega

/-- An operation at page `i` that keeps the records in agreement. -/
def Faithful (i : Nat) (f : Track → Track) : Prop :=
  ∀ x, x.Sane i → (f x).Sane i ∧ x.Balanced i (f x)

theorem Faithful.comp {g : Track → Track} (first : Faithful i f) (second : Faithful i g) :
    Faithful i fun x => g (f x) := by
  intro x sane
  obtain ⟨between, balanced⟩ := first x sane
  obtain ⟨after, balanced'⟩ := second (f x) between
  exact ⟨after, balanced.trans balanced'⟩

theorem Faithful.ite (h : Faithful i f) (cond : Track → Bool) :
    Faithful i fun x => if cond x then f x else x := by
  intro x sane
  cases taken : cond x with
  | true =>
    simp only [taken, if_true]
    exact h x sane
  | false =>
    simp only [taken, Bool.false_eq_true, if_false]
    exact ⟨sane, .refl i x⟩

/-- What the records are about. -/
def Page.tally (p : Page) :=
  (p.status, p.statusMap, p.dirty, p.dirtyMap, p.hot, p.hotBit, p.epochDirty, p.epochBit, p.statBit,
    p.shadow.isSome)

def Shared.counts (s : Shared) := (s.nhot, s.epochNdirty, s.epochNstat, s.groupFree)

/-- An operation that leaves alone what the records are about. -/
theorem faithful_of_tally (page : ∀ x : Track, x.page.Consistent →
    (f x).page.tally = x.page.tally) (shared : ∀ x, (f x).shared.counts = x.shared.counts) :
    Faithful i f := by
  intro x sane
  have page := page x sane.consistent
  have shared := shared x
  simp only [Page.tally, Shared.counts, Prod.mk.injEq] at page shared
  obtain ⟨⟨status, dirty, hot, epoch, hotDirty, shadow⟩, counted, heated⟩ := sane
  refine ⟨⟨⟨?_, ?_, ?_, ?_, ?_, ?_⟩, ?_, ?_⟩, ⟨?_, ?_, ?_, fun g => ?_⟩⟩ <;> grind

/-! ## The page operations -/

theorem noteUnheld_faithful (i : Nat) : Faithful i noteUnheld :=
  faithful_of_tally (fun _ _ => rfl) fun _ => rfl

theorem setMem_faithful (i : Nat) (bytes : PageBytes) : Faithful i (setMem bytes) :=
  faithful_of_tally (fun _ _ => rfl) fun _ => rfl

theorem takeUnheld_faithful (i : Nat) : Faithful i takeUnheld :=
  faithful_of_tally (fun _ _ => rfl) fun _ => rfl

theorem holdPage_faithful (i : Nat) : Faithful i holdPage :=
  Faithful.ite (f := fun x => { x with page := { x.page with held := true } })
    (faithful_of_tally (fun _ _ => rfl) fun _ => rfl) fun x => x.page.epochTracks

/-- A new shadow for a page that has one. -/
theorem shadow_faithful (i : Nat) (cond : Track → Bool)
    (has : ∀ x : Track, x.page.Consistent → cond x = x.page.shadow.isSome) :
    Faithful i fun x =>
      if cond x then { x with page := { x.page with shadow := some x.page.mem } } else x := by
  refine faithful_of_tally (fun x consistent => ?_) fun x => ?_
  · have has := has x consistent
    split_ifs with cond
    · rw [cond] at has
      simp only [Page.tally, ← has, Option.isSome_some]
    · rfl
  · dsimp only
    split_ifs <;> rfl

theorem shadowNow_faithful (i : Nat) : Faithful i shadowNow :=
  shadow_faithful i (fun x => x.page.hotBit) fun _ h => h.hot.trans h.shadow.symm

theorem shadowRewritten_faithful (i : Nat) : Faithful i shadowRewritten :=
  shadow_faithful i (fun x => x.page.hot) fun _ h => h.shadow.symm

theorem maybeSnapshot_faithful (i : Nat) : Faithful i maybeSnapshot := by
  refine faithful_of_tally (fun x _ => ?_) fun x => ?_ <;>
    unfold maybeSnapshot <;> split_ifs <;> rfl

theorem zeroPage_faithful (i : Nat) : Faithful i zeroPage := by
  refine faithful_of_tally (fun x _ => ?_) fun x => ?_ <;>
    unfold zeroPage <;> split_ifs <;> rfl

theorem planTake_faithful (wait : Bool) (i j : Nat) : Faithful i (planTake wait j) := by
  refine faithful_of_tally (fun x _ => ?_) fun x => ?_
  · rw [planTake_page]
    rfl
  · unfold planTake setPlanHold planCopyPage
    split
    · rfl
    · split_ifs <;> rfl
    · rfl

theorem planCapture_faithful (planActive : Bool) (i j : Nat) :
    Faithful i (planCapture planActive j) :=
  (planTake_faithful true i j).ite fun _ => planActive

theorem planPage_faithful (i j slot : Nat) : Faithful i (planPage j slot) := by
  refine faithful_of_tally (fun x _ => ?_) fun x => ?_ <;>
    unfold planPage <;> dsimp only <;> split_ifs <;> rfl

theorem pageCool_faithful (i : Nat) : Faithful i pageCool := by
  intro x ⟨⟨status, dirty, hot, epoch, hotDirty, shadow⟩, counted, heated⟩
  refine ⟨⟨⟨?_, ?_, ?_, ?_, ?_, ?_⟩, ?_, ?_⟩, ⟨?_, ?_, ?_, fun g => ?_⟩⟩ <;>
    simp only [pageCool] <;> grind

theorem setDirty_faithful (i : Nat) (dirty : Bool) : Faithful i (setDirty dirty) := by
  intro x ⟨⟨status, dirty, hot, epoch, hotDirty, shadow⟩, counted, heated⟩
  refine ⟨⟨⟨?_, ?_, ?_, ?_, ?_, ?_⟩, ?_, ?_⟩, ⟨?_, ?_, ?_, fun g => ?_⟩⟩ <;>
    simp only [setDirty, pageCool] <;> grind

theorem heatWrittenPage_faithful (epochNo : UInt16) (i : Nat) :
    Faithful i (heatWrittenPage epochNo) := by
  intro x ⟨⟨status, dirty, hot, epoch, hotDirty, shadow⟩, counted, heated⟩
  refine ⟨⟨⟨?_, ?_, ?_, ?_, ?_, ?_⟩, ?_, ?_⟩, ⟨?_, ?_, ?_, fun g => ?_⟩⟩ <;>
    simp only [heatWrittenPage, pageHeat] <;> grind

theorem epochCapture_faithful (epochActive : Bool) (i : Nat) :
    Faithful i (epochCapture epochActive) := by
  intro x ⟨⟨status, dirty, hot, epoch, hotDirty, shadow⟩, counted, heated⟩
  refine ⟨⟨⟨?_, ?_, ?_, ?_, ?_, ?_⟩, ?_, ?_⟩, ⟨?_, ?_, ?_, fun g => ?_⟩⟩ <;>
    simp only [epochCapture, markEpoch] <;> grind

theorem epochNoteStatusChange_faithful (epochActive : Bool) (new : UInt8) (i : Nat) :
    Faithful i (epochNoteStatusChange epochActive new) := by
  intro x ⟨⟨status, dirty, hot, epoch, hotDirty, shadow⟩, counted, heated⟩
  refine ⟨⟨⟨?_, ?_, ?_, ?_, ?_, ?_⟩, ?_, ?_⟩, ⟨?_, ?_, ?_, fun g => ?_⟩⟩ <;>
    simp only [epochNoteStatusChange, epochCapture, markEpoch, markStat] <;> grind

theorem getHotEpochPage_faithful (i : Nat) : Faithful i getHotEpochPage := by
  intro x ⟨⟨status, dirty, hot, epoch, hotDirty, shadow⟩, counted, heated⟩
  refine ⟨⟨⟨?_, ?_, ?_, ?_, ?_, ?_⟩, ?_, ?_⟩, ⟨?_, ?_, ?_, fun g => ?_⟩⟩ <;>
    simp only [getHotEpochPage, pageCool, markEpoch] <;> grind

theorem countFree_apply (i : Nat) (was status : UInt8) (free : Nat → Nat) (g : Nat) :
    countFree i was status free g =
      if was = status ∨ g ≠ i >>> groupShiftFree then free g
      else if was = stFree then free g - 1
      else if status = stFree then free g + 1
      else free g := by
  unfold countFree
  by_cases same : was = status
  · simp [same]
  · by_cases here : g = i >>> groupShiftFree
    · subst here
      simp only [same, if_false, ne_eq, not_true_eq_false, or_self]
      split_ifs <;> simp
    · simp only [same, if_false, ne_eq, here, not_false_eq_true, or_true, if_true]
      split_ifs <;> simp [here]

/-- The counts `noteStatus` moves: the free pages of the page's group, and the hot ones. -/
theorem noteStatus_shared (i : Nat) (status : UInt8) (x : Track) :
    (noteStatus i status x).shared.nhot =
        (if x.page.hot && x.page.status != status then x.shared.nhot - 1 else x.shared.nhot) ∧
      (noteStatus i status x).shared.epochNdirty = x.shared.epochNdirty ∧
      (noteStatus i status x).shared.epochNstat = x.shared.epochNstat ∧
      (noteStatus i status x).shared.groupFree =
        countFree i x.page.status status x.shared.groupFree := by
  unfold noteStatus pageCool
  grind

theorem noteStatus_faithful (i : Nat) (new : UInt8) : Faithful i (noteStatus i new) := by
  intro x ⟨⟨status, dirty, hot, epoch, hotDirty, shadow⟩, counted, heated⟩
  obtain ⟨nhot, ndirty, nstat, free⟩ := noteStatus_shared i new x
  refine ⟨⟨⟨?_, ?_, ?_, ?_, ?_, ?_⟩, ?_, ?_⟩, ⟨?_, ?_, ?_, fun g => ?_⟩⟩ <;>
    simp only [noteStatus_page, nhot, ndirty, nstat, free, countFree_apply] <;> grind

theorem freePage_faithful (planActive epochActive : Bool) (i : Nat) :
    Faithful i (freePage planActive epochActive i) := by
  have before := (((planCapture_faithful planActive i i).comp (maybeSnapshot_faithful i)).comp
    (epochNoteStatusChange_faithful epochActive stFree i)).comp (zeroPage_faithful i)
  intro x sane
  obtain ⟨between, balanced⟩ := before x sane
  obtain ⟨after, balanced'⟩ := setDirty_faithful i _ _ between
  exact ⟨after, balanced.trans balanced'⟩

theorem tripPage_faithful (planActive epochActive : Bool) (i : Nat) :
    Faithful i (tripPage planActive epochActive i) :=
  ((epochCapture_faithful epochActive i).comp (planCapture_faithful planActive i i)).comp
    (setDirty_faithful i true)

/-! ## The block -/

structure Block.Recorded (b : Block) : Prop where
  consistent : ∀ i, (b.page i).Consistent
  nhot : b.shared.nhot = countBelow b.npages fun i => (b.page i).hot
  ndirty : b.shared.epochNdirty = countBelow b.npages fun i => (b.page i).epochBit
  nstat : b.shared.epochNstat = countBelow b.npages fun i => (b.page i).statBit
  free : ∀ g, b.shared.groupFree g =
    countBelow b.npages fun i => i >>> groupShiftFree == g && (b.page i).status == stFree
  /-- an open plan lists pages of the block -/
  planned : ∀ plan, b.plan = some plan → ∀ i ∈ plan.list, i < b.npages

theorem Block.Recorded.sane (h : b.Recorded) (hi : i < b.npages) :
    Track.Sane i ⟨b.page i, b.shared⟩ := by
  refine ⟨h.consistent i, fun free => ?_, fun hot => ?_⟩
  · have counted := h.free (i >>> groupShiftFree)
    rw [counted]
    exact countBelow_pos hi (by simp [show (b.page i).status = stFree from free])
  · rw [h.nhot]
    exact countBelow_pos hi hot

/-- The records do not look at the protections or at most control fields, and of a page only at
what they are about. -/
theorem Block.Recorded.of_tally (h : b.Recorded) (addr : c.addr = b.addr)
    (plan : c.plan = b.plan ∨ c.plan = none) (page : ∀ i, (c.page i).tally = (b.page i).tally)
    (shared : c.shared = b.shared) : c.Recorded := by
  have npages := Control.npages_congr addr
  simp only [Page.tally, Prod.mk.injEq] at page
  have count (bit : Nat → Page → Bool) (same : ∀ i, bit i (c.page i) = bit i (b.page i)) :
      countBelow b.npages (fun i => bit i (b.page i)) = countBelow c.npages fun i => bit i
      (c.page i) := by
    rw [npages]
    exact countBelow_congr fun i _ => (same i).symm
  constructor
  · intro i
    have ok := h.consistent i
    constructor <;> grind [ok.status, ok.dirty, ok.hot, ok.epoch, ok.hotDirty, ok.shadow, page i]
  · rw [shared, h.nhot]
    exact count (fun _ p => p.hot) (by grind)
  · rw [shared, h.ndirty]
    exact count (fun _ p => p.epochBit) (by grind)
  · rw [shared, h.nstat]
    exact count (fun _ p => p.statBit) (by grind)
  · intro g
    rw [shared, h.free]
    exact count (fun i p => i >>> groupShiftFree == g && p.status == stFree) (by grind)
  · intro open_ is
    rcases plan with same | closed
    · rw [npages]
      exact h.planned open_ (same ▸ is)
    · rw [closed] at is
      cases is

theorem Block.Recorded.congr (h : b.Recorded) (addr : c.addr = b.addr)
    (plan : c.plan = b.plan ∨ c.plan = none) (page : c.page = b.page)
    (shared : c.shared = b.shared) :
    c.Recorded := h.of_tally addr plan (fun i => by rw [page]) shared

/-- One count of the block, when one page moves it. -/
theorem count_onPage (bit : Nat → Page → Bool) {before after : Nat} (hi : i < b.npages)
    (was : before = countBelow b.npages fun j => bit j (b.page j))
    (moved : after + (bit i (b.page i)).toNat =
      before + (bit i (f ⟨b.page i, b.shared⟩).page).toNat) :
    after = countBelow b.npages fun j => bit j ((b.onPage i f).page j) := by
  have update := countBelow_update (f := fun j => bit j (b.page j))
    (g := fun j => bit j ((b.onPage i f).page j)) hi
    fun j other => by simp only [Block.onPage_page_ne b f other]
  simp only [Block.onPage_page_self] at update
  omega

namespace Block.Recorded

theorem onPage_of (h : b.Recorded) (hi : i < b.npages)
    (sane : (f ⟨b.page i, b.shared⟩).Sane i)
    (balanced : Track.Balanced i ⟨b.page i, b.shared⟩ (f ⟨b.page i, b.shared⟩)) :
    (b.onPage i f).Recorded := by
  constructor
  · intro j
    rw [onPage_page]
    split_ifs
    · exact sane.consistent
    · exact h.consistent j
  · exact count_onPage (fun _ p => p.hot) hi h.nhot balanced.nhot
  · exact count_onPage (fun _ p => p.epochBit) hi h.ndirty balanced.ndirty
  · exact count_onPage (fun _ p => p.statBit) hi h.nstat balanced.nstat
  · intro g
    exact count_onPage (fun j p => j >>> groupShiftFree == g && p.status == stFree) hi
      (h.free g) (balanced.free g)
  · exact h.planned

theorem onPage (h : b.Recorded) (hi : i < b.npages) (faithful : Faithful i f) :
    (b.onPage i f).Recorded := by
  obtain ⟨sane, balanced⟩ := faithful _ (h.sane hi)
  exact h.onPage_of hi sane balanced

theorem onPages (h : b.Recorded) (bound : start + count ≤ b.npages)
    {f : Nat → Track → Track} (faithful : ∀ i, Faithful i (f i)) :
    (b.onPages start count f).Recorded := by
  have kept := forRange_inv (P := fun c : Block => c.addr = b.addr ∧ c.Recorded)
    (f := fun c i => c.onPage i (f i)) (a := b) ⟨rfl, h⟩
    fun c i _ (hi : i < start + count) ⟨addr, recorded⟩ =>
      ⟨addr, recorded.onPage (by rw [Control.npages_congr addr]; omega) (faithful i)⟩
  exact kept.2

theorem refreshRange (h : b.Recorded) (start count : Nat) :
    (b.refreshRange start count).Recorded := by
  refine h.of_tally (by simp) (.inl (by simp)) (fun i => ?_) (refreshRange_shared ..)
  rw [b.refreshRange_page]
  split_ifs <;> rfl

theorem close (h : s.block.Recorded) : s.close.Recorded := by
  unfold Pending.close
  split
  · exact h
  · exact h.refreshRange _ _

theorem note (h : s.block.Recorded) (i : Nat) : (s.note i).block.Recorded := by
  unfold Pending.note
  split
  · exact h
  · split
    · exact h
    · exact h.close

/-! ## Memory calls and guest writes -/

theorem setProtections (h : b.Recorded) (bound : start + count ≤ b.npages)
    (status : UInt8) :
    (b.setProtections start count status).Recorded :=
  ((h.onPages bound fun i => epochNoteStatusChange_faithful _ _ i).onPages (by simpa using bound)
    fun i => noteStatus_faithful i status).refreshRange start count

theorem freePages (h : b.Recorded) (bound : start + count ≤ b.npages)
    (adviseOnly : Bool) :
    (b.freePages start count adviseOnly).Recorded := by
  have freed := h.onPages bound fun i => freePage_faithful b.planActive b.epochActive i
  unfold Block.freePages
  cases adviseOnly with
  | true => exact freed.refreshRange start count
  | false => exact freed.setProtections (by simpa using bound) stFree

end Block.Recorded

theorem MemSteps.recorded (steps : MemSteps b c) (h : b.Recorded) : c.Recorded := by
  induction steps with
  | refl => exact h
  | tail _ last ih =>
    cases last with
    | protect _ bound => exact ih.setProtections bound _
    | free adviseOnly bound _ => exact ih.freePages bound adviseOnly

theorem Control.groupFirst_bound {b : Control} (hi : i < b.npages) :
    b.groupFirst i + b.groupCount i ≤ b.npages := by
  have low : b.groupFirst i ≤ i := Nat.div_mul_le_self _ _
  unfold groupCount
  omega

namespace Block

theorem Recorded.trip (h : b.Recorded) (room : Nat → Bool) (protectOk : Bool) (i : Nat) :
    (b.trip room protectOk i).2.Recorded := by
  unfold Block.trip
  split
  · exact h
  next refused =>
    simp only [Bool.or_eq_true, decide_eq_true_eq, not_or, Nat.not_le] at refused
    have bound := Control.groupFirst_bound refused.1.2
    dsimp only
    generalize reach : firstFrom _ _ _ = served
    obtain ⟨low, high⟩ : b.groupFirst i ≤ served ∧ served ≤ b.groupFirst i + b.groupCount i := by
      rw [← reach]
      exact ⟨le_firstFrom .., firstFrom_le ..⟩
    have copied : (b.onPages (b.groupFirst i) (served - b.groupFirst i) fun q x =>
        if x.page.heldBy (q == i) then maybeSnapshot x else x).Recorded :=
      h.onPages (by omega) fun q => (maybeSnapshot_faithful q).ite fun x => x.page.heldBy (q == i)
    split
    · exact copied
    · have released := copied.onPages (f := fun q x => if x.page.heldBy (q == i) then
        tripPage b.planActive b.epochActive q x else x) (by simpa using bound)
        fun q => (tripPage_faithful _ _ q).ite fun x => x.page.heldBy (q == i)
      simp only [onPages_toControl]
      split
      · exact released
      · refine Block.Recorded.onPages (b := Block.protect _ _ _) ?_ (by simpa using bound)
          fun q => (noteUnheld_faithful q).ite fun _ => _
        exact released.congr rfl (.inl rfl) rfl rfl

theorem Recorded.poke (h : b.Recorded) (hi : i < b.npages) (bytes : PageBytes) :
    (b.poke i bytes).Recorded := h.onPage hi (setMem_faithful i bytes)

theorem trip_toControl (b : Block) (room : Nat → Bool) (protectOk : Bool) (i : Nat) :
    (b.trip room protectOk i).2.toControl = b.toControl := by
  unfold trip
  dsimp only
  split_ifs <;> simp [protect]

theorem Recorded.guestWrite (h : b.Recorded) (i : Nat) (bytes : PageBytes) :
    (b.guestWrite i bytes).Recorded := by
  rcases b.guestWrite_cases i bytes with
    nothing | ⟨hi, -, ⟨-, poked⟩ | ⟨-, c, served, poked⟩⟩
  · rw [nothing]
    exact h
  · rw [poked]
    exact h.poke hi bytes
  · have tripped := h.trip (fun _ => true) true i
    have control := b.trip_toControl (fun _ => true) true i
    rw [served] at tripped control
    rw [poked]
    refine tripped.poke ?_ bytes
    rw [control]
    exact hi

/-! ## Epochs -/

theorem epochForget_page (b : Block) (j : Nat) : b.epochForget.page j =
      if j < b.npages then (epochClearPage ⟨b.page j, {}⟩).page else b.page j :=
  b.onAll_page (f := fun _ => epochClearPage) (g := fun p => (epochClearPage ⟨p, {}⟩).page)
    (fun _ _ => rfl) j

@[simp] theorem epochForget_toControl (b : Block) : b.epochForget.toControl = b.toControl :=
  b.onPages_toControl 0 b.npages fun _ => epochClearPage

@[simp] theorem epochForget_os (b : Block) : b.epochForget.os = b.os :=
  b.onPages_os 0 b.npages fun _ => epochClearPage

theorem epochForget_shared (b : Block) :
    b.epochForget.shared = { b.shared with epochNdirty := 0, epochNstat := 0 } := by
  have kept : (b.onPages 0 b.npages fun _ => epochClearPage).shared = b.shared :=
    b.onPages_shared fun _ _ => rfl
  rw [← kept]
  rfl

section

variable (h : b.Recorded)
include h

/-- Nothing is in the lists of a forgotten epoch. -/
theorem Recorded.epochForget : b.epochForget.Recorded := by
  have page := b.epochForget_page
  have npages : b.epochForget.npages = b.npages := by simp
  constructor
  · intro i
    have ok := h.consistent i
    rw [page]
    split_ifs
    · refine ⟨ok.status, ok.dirty, ok.hot, ?_, ok.hotDirty, ok.shadow⟩
      rw [epochClearPage_page, ok.epoch]
      cases (b.page i).epochDirty <;> rfl
    · exact ok
  · rw [npages, b.epochForget_shared, h.nhot]
    refine countBelow_congr fun i hi => ?_
    rw [page, if_pos hi, epochClearPage_page]
  · symm
    rw [npages]
    refine countBelow_eq_zero.mpr fun i hi => ?_
    rw [page, if_pos hi, epochClearPage_page]
  · symm
    rw [npages]
    refine countBelow_eq_zero.mpr fun i hi => ?_
    rw [page, if_pos hi, epochClearPage_page]
  · intro g
    rw [npages, b.epochForget_shared, h.free]
    refine countBelow_congr fun i hi => ?_
    rw [page, if_pos hi, epochClearPage_page]
  · rw [npages, epochForget_toControl]
    exact h.planned

theorem Recorded.epochClear : b.epochClear.Recorded :=
  h.epochForget.congr rfl (.inl rfl) rfl rfl

theorem Recorded.holdUnheld : b.holdUnheld.Recorded := by
  refine Recorded.close ?_
  have taken : (b.onPages 0 b.npages fun _ => takeUnheld).Recorded :=
    h.onPages (Nat.le_of_eq (Nat.zero_add _)) takeUnheld_faithful
  refine (forRange_inv (P := fun s : Pending => s.block.addr = b.addr ∧ s.block.Recorded)
    ⟨by simp, taken⟩ ?_).2
  intro s i _ hi ⟨addr, recorded⟩
  have inside : i < s.block.npages := by
    rw [Control.npages_congr addr]
    simpa using hi
  split
  · have held := recorded.onPage inside (holdPage_faithful i)
    refine ⟨?_, Recorded.note (s := s.onPage i holdPage) held i⟩
    rw [Pending.note_toControl]
    exact addr
  · exact ⟨addr, recorded⟩

theorem Recorded.epochOpen : b.epochOpen.Recorded :=
  h.epochForget.congr rfl (.inl (by rw [Block.epochOpen, epochForget_toControl])) rfl rfl

theorem Recorded.epochBegin : b.epochBegin.2.Recorded := by
  unfold Block.epochBegin
  split
  · exact h
  · refine Block.Recorded.holdUnheld ?_
    exact h.epochOpen.onPages (Nat.le_of_eq (Nat.zero_add _)) shadowNow_faithful

theorem Recorded.deltaSave (forward : Bool) : (b.deltaSave forward).2.Recorded := by
  have looked : b.getHotEpoch.Recorded :=
    h.onPages (Nat.le_of_eq (Nat.zero_add _)) getHotEpochPage_faithful
  unfold Block.deltaSave
  split
  · exact h
  · dsimp only
    split
    · exact looked
    · exact looked.onPages (Nat.le_of_eq (Nat.zero_add _)) (heatWrittenPage_faithful _)

/-! ## Planned states -/

/-- Copies into the plan's buffer, in any order, keep the records. -/
theorem Recorded.takes {list : List Nat} (inside : ∀ i ∈ list, i < b.npages) (wait : Bool) :
    (list.foldl (fun (b : Block) i => b.onPage i (planTake wait i)) b).Recorded := by
  induction list generalizing b with
  | nil => exact h
  | cons i rest ih =>
    exact ih (h.onPage (inside i (by simp)) (planTake_faithful wait i i))
      fun j hj => inside j (by simp [hj])

end

@[simp] theorem takes_toControl (b : Block) (wait : Bool) (list : List Nat) :
    (list.foldl (fun (b : Block) i => b.onPage i (planTake wait i)) b).toControl = b.toControl := by
  induction list generalizing b with
  | nil => rfl
  | cons i rest ih => exact ih (b.onPage i (planTake wait i))

@[simp] theorem planDrain_toControl (b : Block) : b.planDrain.toControl = b.toControl := by
  unfold planDrain
  split
  · rfl
  next plan _ => exact b.takes_toControl true plan.list

theorem Recorded.planDrain (h : b.Recorded) : b.planDrain.Recorded := by
  unfold Block.planDrain
  split
  · exact h
  next plan is => exact h.takes (h.planned plan is) true

/-- `plan_fill` is copies of some pages of the plan. -/
theorem planFill_eq {plan : Plan} (is : b.plan = some plan) (first past : Nat) :
    (b.planFill first past).2 =
      ((plan.list.take past).drop first).foldl
        (fun (b : Block) i => b.onPage i (planTake false i)) b := by
  unfold planFill
  rw [is]
  dsimp only
  generalize (plan.list.take past).drop first = list
  generalize 0 = done
  clear is
  induction list generalizing b done with
  | nil => rfl
  | cons i rest ih => exact ih _

theorem planFill_none (is : b.plan = none) (first past : Nat) : (b.planFill first past).2 = b := by
  unfold planFill
  rw [is]

theorem Recorded.planFill (h : b.Recorded) (first past : Nat) :
    (b.planFill first past).2.Recorded := by
  cases is : b.plan with
  | none =>
    rw [planFill_none is]
    exact h
  | some plan =>
    rw [planFill_eq is]
    refine h.takes (fun i hi => h.planned plan is i ?_) false
    exact List.mem_of_mem_take (List.mem_of_mem_drop hi)

theorem Recorded.notes (h : s.block.Recorded) (list : List Nat) :
    (list.foldl Pending.note s).block.Recorded := by
  induction list generalizing s with
  | nil => exact h
  | cons i rest ih => exact ih (h.note i)

theorem Recorded.planFinish (h : b.Recorded) : b.planFinish.2.Recorded := by
  unfold Block.planFinish
  split
  · exact h
  next plan is =>
    refine Block.Recorded.close (Block.Recorded.notes ?_ plan.list)
    exact h.planDrain.congr rfl (.inr rfl) rfl rfl

theorem Recorded.statePlan (h : b.Recorded) (dest : Option (Nat → PageBytes)) (capacity : Nat) :
    (b.statePlan dest capacity).2.Recorded := by
  unfold Block.statePlan
  split
  · exact h
  next room =>
    split
    · exact h
    · split
      · exact h
      · refine Block.Recorded.close ?_
        have inside : ∀ entry ∈ b.statePages.zipIdx, entry.1 < b.npages := by
          intro entry member
          have := List.fst_mem_of_mem_zipIdx member
          simp only [statePages, List.mem_filter, List.mem_range] at this
          exact this.1
        have opened : Block.Recorded
            { b with
              plan := some { head := b.stateHeader, room, list := b.statePages }
              shared := { b.shared with copies := [] } } := by
          refine ⟨h.consistent, h.nhot, h.ndirty, h.nstat, h.free, ?_⟩
          intro plan is i hi
          cases is
          simp only [statePages, List.mem_filter, List.mem_range] at hi
          exact hi.1
        dsimp only
        generalize b.statePages.zipIdx = entries at inside ⊢
        generalize start : Pending.mk _ none = s
        have recorded : s.block.Recorded := by
          rw [← start]
          exact opened
        have addr : s.block.addr = b.addr := by rw [← start]
        clear start opened
        induction entries generalizing s with
        | nil => exact recorded
        | cons entry rest ih =>
          have here : entry.1 < s.block.npages := by
            rw [Control.npages_congr addr]
            exact inside entry (by simp)
          have planned := recorded.onPage here (planPage_faithful entry.1 entry.1 entry.2)
          refine ih (fun e he => inside e (by simp [he])) _ ?_ ?_
          · dsimp only
            split
            · exact Block.Recorded.note (s := s.onPage _ _) planned _
            · exact planned
          · dsimp only
            split
            · rw [Pending.note_toControl]
              exact addr
            · exact addr

end Block

end MiniBox

