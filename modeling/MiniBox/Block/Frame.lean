import MiniBox.Block.View

/-!
# One frame

A frame opens an epoch, runs operations and closes the epoch into a delta.  The delta is
right when it takes the machine at the start of the frame to the machine at its end.

It rests on `Page.Traced`: in the middle of a frame a visible page is in the epoch's data
list, or it has the dirty flag and the bytes it began with, a hot page in its shadow; and a
page that is left writable is hot or in the list, so that no write goes by unseen.  Opening
the epoch establishes this for every page that `epoch_begin` knows to be writable
(`Block.Watched`), and every change of an operation keeps it.
-/

namespace MiniBox

open Lib

/-! ## A page in a frame -/

/-- A visible page in a frame that began with it as `was`. -/
structure Page.Traced (was : PageView) (p : Page) : Prop where
  status : p.statBit = true ∨ p.status = was.status
  watched : p.opens = true → p.hot = true ∨ p.epochDirty = true
  data : p.epochDirty = true ∨
    p.dirty = was.dirty ∧ if p.hot then p.shadow = some was.mem else p.mem = was.mem

section Traced

variable {was : PageView} {p : Page}

namespace Page

/-- A page in both lists needs nothing more. -/
theorem Traced.listed (stat : p.statBit = true) (data : p.epochDirty = true) : p.Traced was :=
  ⟨.inl stat, fun _ => .inr data, .inl data⟩

theorem refreshed_opens (swappedIn : Bool) (p : Page) :
    (p.refreshed swappedIn).opens = p.opens := by
  cases swappedIn with
  | false => rfl
  | true => exact p.noted_opens

theorem Traced.refreshed (h : p.Traced was) (swappedIn : Bool) :
    (p.refreshed swappedIn).Traced was := by
  refine ⟨?_, ?_, ?_⟩
  · cases swappedIn <;> exact h.status
  · rw [refreshed_opens]
    cases swappedIn <;> exact h.watched
  · cases swappedIn <;> exact h.data

/-- A page whose allocation changes in an epoch is in both lists. -/
theorem restatus_listed {status : UInt8} (visible : p.invisible = false)
    (changes : p.status ≠ status) :
    (p.restatus true status).statBit = true ∧ (p.restatus true status).epochDirty = true := by
  simp [restatus, visible, changes]

theorem restatus_same (p : Page) (epochActive : Bool) :
    p.restatus epochActive p.status = { p with statusMap := p.status } := by
  simp [restatus]

theorem freed_listed (planActive : Bool) (visible : p.invisible = false)
    (allocated : p.status ≠ stFree) :
    (p.freed planActive true).statBit = true ∧ (p.freed planActive true).epochDirty = true := by
  simp [freed, freePage, visible, allocated]

theorem restatus_keeps_listed {q : Page} (stat : q.statBit = true)
    (data : q.epochDirty = true) (status : UInt8) :
    (q.restatus true status).statBit = true ∧ (q.restatus true status).epochDirty = true := by
  simp [restatus, stat, data]

theorem Traced.change {c : Control} (active : c.epochActive = true) {q : Page}
    (visible : p.invisible = false) (change : p.Change c q) (h : p.Traced was) : q.Traced was := by
  cases change with
  | called called =>
    cases called with
    | @protect status _ =>
      refine Page.Traced.refreshed ?_ _
      rw [active]
      by_cases same : p.status = status
      · rw [← same, Page.restatus_same]
        exact ⟨h.status, h.watched, h.data⟩
      · obtain ⟨stat, data⟩ := Page.restatus_listed visible same
        exact .listed stat data
    | keep allocated =>
      refine Page.Traced.refreshed ?_ _
      rw [active]
      obtain ⟨stat, data⟩ := Page.freed_listed c.planActive visible allocated
      exact .listed stat data
    | drop allocated =>
      refine Page.Traced.refreshed ?_ _
      rw [active]
      obtain ⟨stat, data⟩ := Page.freed_listed c.planActive visible allocated
      obtain ⟨stat', data'⟩ := Page.restatus_keeps_listed stat data stFree
      exact .listed stat' data'
  | release _ tracked =>
    -- the handler captures the page it lets through
    have data : (p.released c.planActive c.epochActive).epochDirty = true := by
      simp [Page.released, tripPage, active, Page.epochTracks, visible, tracked]
    refine ⟨?_, fun _ => .inr data, .inl data⟩
    simp [Page.released, tripPage, h.status]
  | write bytes opens =>
    refine ⟨h.status, h.watched, ?_⟩
    rcases h.data with listed | ⟨dirty, kept⟩
    · exact .inl listed
    · rcases h.watched opens with hot | listed
      · refine .inr ⟨dirty, ?_⟩
        rw [if_pos hot] at kept
        rw [if_pos (show (Page.hot _) = true from hot)]
        exact kept
      · exact .inl listed
  | plan slot =>
    unfold Page.planned
    split_ifs
    · refine Page.Traced.refreshed ?_ _
      refine ⟨h.status, ?_, h.data⟩
      intro opens
      simp only [Page.opens] at opens
      refine .inl ?_
      cases hot : p.hot <;> simp_all
    · exact ⟨h.status, h.watched, h.data⟩
  | take wait i =>
    rw [planTake_page]
    exact ⟨h.status, h.watched, h.data⟩
  | note => exact h.refreshed _

/-- A page that is left writable when an epoch opens is one the epoch knows of. -/
def Watched (p : Page) : Prop :=
  p.invisible = false → p.opens = true → p.hot = true ∨ p.unheldBit = true

/-- A watched page enters the frame traced. -/
theorem Watched.opened {swappedIn : Bool} (watched : p.Watched) (visible : p.invisible = false)
    (consistent : p.Consistent) : (p.opened swappedIn).Traced p.view := by
  have opens : (p.opened swappedIn).opens = true → p.hot = true := by
    intro opens
    cases bit : p.unheldBit with
    | false =>
      have still : (p.opened swappedIn).opens = p.opens := by
        unfold Page.opened
        rw [bit, if_neg (by decide), shadowNow_page]
        rfl
      rw [still] at opens
      rcases watched visible opens with hot | unheld
      · exact hot
      · rw [bit] at unheld
        cases unheld
    | true =>
      unfold Page.opened at opens
      rw [bit, if_pos rfl, Page.refreshed_opens, holdPage_page] at opens
      simp only [takeUnheld, shadowNow_page, epochClearPage_page, Page.opens, Page.epochTracks,
        visible] at opens
      cases hot : p.hot with
      | true => rfl
      | false =>
        rw [hot] at opens
        cases tracked : statusTracked p.status <;> simp [tracked] at opens
  obtain ⟨held, unheldBit, is⟩ := p.opened_eq swappedIn
  have fresh : (if p.epochBit then false else p.epochDirty) = false := by
    rw [consistent.epoch]
    cases p.epochDirty <;> rfl
  refine ⟨.inr ?_, fun opened => .inl ?_, .inr ⟨?_, ?_⟩⟩
  · rw [is]
    rfl
  · have hot := opens opened
    rw [is]
    exact hot
  · rw [is]
    rfl
  · rw [is]
    dsimp only
    split_ifs with hot bit
    · rfl
    · rw [consistent.hot, hot] at bit
      exact absurd rfl bit
    · rfl

/-- What the lists leave out at the end of a frame is as it was at its start. -/
theorem Traced.looked (consistent : p.Consistent) (h : p.Traced was) :
    p.looked.view = p.view ∧ (p.looked.statBit = true ∨ p.view.status = was.status) ∧
      (p.looked.epochBit = true ∨ p.view.dirty = was.dirty ∧ p.view.mem = was.mem) := by
  have bit := consistent.hot
  have epoch := consistent.epoch
  have view : p.looked.view = p.view ∧ p.looked.statBit = p.statBit := by
    obtain ⟨_, _, _, _, _, _, _, is, -⟩ := Page.looked_eq consistent
    rw [is]
    exact ⟨rfl, rfl⟩
  refine ⟨view.1, ?_, ?_⟩
  · rw [view.2]
    exact h.status
  · unfold Page.looked
    rw [getHotEpochPage_page]
    cases hot : p.hot with
    | false =>
      rw [if_neg (by simp [bit, hot])]
      rcases h.data with listed | ⟨dirty, kept⟩
      · exact .inl (epoch.trans listed)
      · rw [hot] at kept
        exact .inr ⟨dirty, kept⟩
    | true =>
      rw [if_pos (by simp [bit, hot])]
      split_ifs with same cold
      · -- unchanged against its shadow
        rw [pageCool_page]
        rcases h.data with listed | ⟨dirty, kept⟩
        · exact .inl (epoch.trans listed)
        · rw [hot, if_pos rfl, same] at kept
          exact .inr ⟨dirty, Option.some.inj kept⟩
      · rcases h.data with listed | ⟨dirty, kept⟩
        · exact .inl (epoch.trans listed)
        · rw [hot, if_pos rfl, same] at kept
          exact .inr ⟨dirty, Option.some.inj kept⟩
      · refine .inl ?_
        show (p.epochBit || !p.epochDirty) = true
        rw [epoch]
        cases p.epochDirty <;> rfl

end Page

end Traced

/-! ## The delta of a frame -/

/-- A delta whose lists leave out only what has not changed takes `was` to the machine it
was saved from. -/
theorem Block.delta_effect {b : Block} {inv : Nat → Bool} {was : Nat → PageView}
    (status : ∀ i, i < b.npages → inv i = false →
      (b.page i).statBit = true ∨ (b.view i).status = (was i).status)
    (data : ∀ i, i < b.npages → inv i = false → (b.page i).epochBit = true ∨
      (b.view i).dirty = (was i).dirty ∧ (b.view i).mem = (was i).mem) :
    AgreeOn b.npages inv (b.delta.effect was) b.view := by
  intro i hi visible
  have small := b.npages_lt
  have kept : (b.delta.effect was i).status = (b.view i).status := by
    by_cases stat : (b.page i).statBit = true
    · have listed : (⟨i, (b.page i).status⟩ : StatusEntry) ∈ b.delta.status :=
        List.mem_map.mpr ⟨i, by simp [hi, stat], rfl⟩
      exact Delta.effect_status was listed
    · refine (Delta.effect_status_kept was fun e listed is => ?_).trans
        ((status i hi visible).resolve_left stat).symm
      obtain ⟨j, member, rfl⟩ := List.mem_map.mp listed
      obtain rfl : j = i := is
      exact stat (List.mem_filter.mp member).2
  have written : (b.delta.effect was i).dirty = (b.view i).dirty ∧
      (b.delta.effect was i).mem = (b.view i).mem := by
    by_cases bit : (b.page i).epochBit = true
    · -- the entry carries the flag of the page in its top bit
      have listed : (⟨if (b.page i).dirty then i else i + deltaIdxClean, (b.page i).mem⟩ :
          DataEntry) ∈
          b.delta.data := List.mem_map.mpr ⟨i, by simp [hi, bit], rfl⟩
      have entry := Delta.effect_data was listed
      have page := deltaPage_of_lt (i := i) (by omega) (b.page i).dirty
      rw [DataEntry.page, page] at entry
      refine ⟨entry.1.trans ?_, entry.2⟩
      show (!decide (deltaIdxClean ≤ _)) = (b.page i).dirty
      cases (b.page i).dirty
      · simp
      · simp
        omega
    · have same := (data i hi visible).resolve_left bit
      have rest := Delta.effect_data_kept (d := b.delta) was (i := i)
        fun e listed is => by
          obtain ⟨j, member, rfl⟩ := List.mem_map.mp listed
          obtain ⟨inside, set⟩ := List.mem_filter.mp member
          rw [DataEntry.page, deltaPage_of_lt (by have := List.mem_range.mp inside; omega)] at is
          exact bit (is ▸ set)
      exact ⟨rest.1.trans same.1.symm, rest.2.trans same.2.symm⟩
  exact PageView.ext kept written.1 written.2

/-- A page the epoch gives back clean holds what it was sealed with. -/
theorem Block.delta_declares {inv : Nat → Bool} {base : Nat → PageBytes} {b : Block}
    (kept : ∀ i, (b.page i).Kept (inv i) (base i)) :
    Declares (SealedWith inv base) b.delta.data := by
  intro e listed clean visible
  obtain ⟨i, member, rfl⟩ := List.mem_map.mp listed
  have inside := List.mem_range.mp (List.mem_filter.mp member).1
  have small := b.npages_lt
  rw [DataEntry.page, deltaPage_of_lt (by omega)] at visible ⊢
  refine (kept i).clean visible ?_
  cases dirty : (b.page i).dirty with
  | false => rfl
  | true =>
    rw [DataEntry.clean, dirty] at clean
    simp only [if_true, decide_eq_true_eq] at clean
    omega

section Frame

variable {inv : Nat → Bool} {base : Nat → PageBytes} {b : Block}

/-- Closing an epoch changes nothing a savestate shows. -/
theorem Page.Saved.view {p q : Page} (consistent : p.Consistent) (saved : p.Saved q) :
    q.view = p.view := by
  have looked : p.looked.view = p.view := by
    obtain ⟨_, _, _, _, _, _, _, is, -⟩ := looked_eq consistent
    rw [is]
    rfl
  cases saved with
  | left => rfl
  | warmed heat seen => exact looked
  | heated heat seen _ => exact looked

namespace Block

/-- A block in the middle of a frame that began with its pages as `was`. -/
structure InFrame (inv : Nat → Bool) (base : Nat → PageBytes) (was : Nat → PageView)
    (b : Block) : Prop where
  sound : b.Sound inv base
  tight : b.Tight
  active : b.epochActive = true
  traced : ∀ i, i < b.npages → inv i = false → (b.page i).Traced (was i)

/-- Every page the tracker leaves writable is hot or one that `epoch_begin` will hold. -/
def Watched (b : Block) : Prop := ∀ i, i < b.npages → (b.page i).Watched

theorem Sound.tight_event (h : b.Sound inv base) (tight : b.Tight) (op : Op) : (op.run b).Tight :=
  InSteps.tight (op.inSteps h.recorded) h.unmapped tight

theorem Sound.epochBegin (h : b.Sound inv base) (tight : b.Tight) (watched : b.Watched) :
    b.epochBegin.2.InFrame inv base b.view := by
  have control := epochBegin_toControl h.is_sealed
  refine ⟨Sound.event h tight (e := .epochBegin) trivial,
    InSteps.tight b.epochBegin_inSteps h.unmapped tight, by rw [control], fun i hi visible => ?_⟩
  have inside : i < b.npages := by
    rw [control] at hi
    exact hi
  rw [epochBegin_page h.is_sealed, if_pos inside]
  exact (watched i inside).opened ((h.kept i).flag.trans visible) (h.recorded.consistent i)

theorem InFrame.op {was : Nat → PageView} (h : b.InFrame inv base was) (op : Op) :
    (op.run b).InFrame inv base was := by
  obtain ⟨plan, control⟩ := op.toControl b
  have pages := op.keeps h.tight
    (P := fun i p => p.Settled b.swappedIn ∧ p.Kept (inv i) (base i) ∧
      (i < b.npages → inv i = false → p.Traced (was i)))
    (fun i p q change ⟨settled, kept, traced⟩ =>
      ⟨settled.change change, kept.change change settled, fun hi visible =>
        (traced hi visible).change h.active (kept.flag.trans visible) change⟩)
    fun i => ⟨h.sound.settled i, h.sound.kept i, h.traced i⟩
  refine ⟨h.sound.event (e := .op op) h.tight trivial, h.sound.tight_event h.tight op, ?_, ?_⟩
  · rw [control]
    exact h.active
  · intro i hi visible
    rw [control] at hi
    exact (pages i).2.2 hi visible

/-- The operations of a frame, in order. -/
def runOps (b : Block) (ops : List Op) : Block := ops.foldl Op.run b

theorem InFrame.ops {was : Nat → PageView} (h : b.InFrame inv base was) (ops : List Op) :
    (b.runOps ops).InFrame inv base was := by
  induction ops generalizing b with
  | nil => exact h
  | cons op rest ih => exact ih (h.op op)

/-- Looking at the hot pages keeps the baselines. -/
theorem Sound.hotEpoch_kept (h : b.Sound inv base) (i : Nat) :
    (b.getHotEpoch.page i).Kept (inv i) (base i) := by
  rw [getHotEpoch_page]
  split_ifs
  · exact (h.kept i).saved (h.recorded.consistent i)
      (.warmed (b.page i).looked.heat (b.page i).looked.seen)
  · exact h.kept i

/-- The delta a frame ends with takes the machine from its start to its end. -/
theorem InFrame.deltaSave {was : Nat → PageView} (h : b.InFrame inv base was) :
    ∃ d : Delta b.npages, (b.deltaSave true).1 = .ok d.encode ∧
      AgreeOn b.npages inv (d.effect was) (b.deltaSave true).2.view ∧
      Declares (SealedWith inv base) d.data ∧ (b.deltaSave true).2.Sound inv base ∧
      (b.deltaSave true).2.Tight := by
  have npages : b.getHotEpoch.npages = b.npages := by rw [getHotEpoch_toControl]
  have recorded := h.sound.recorded
  have looked : ∀ i, i < b.npages → b.getHotEpoch.page i = (b.page i).looked := fun i hi => by
    rw [getHotEpoch_page, if_pos hi]
  have ends : ∀ i, (b.deltaSave true).2.view i = b.view i := fun i =>
    (b.deltaSave_page true i).view (recorded.consistent i)
  have traced : ∀ i, i < b.npages → inv i = false → _ := fun i hi visible =>
    (h.traced i hi visible).looked (recorded.consistent i)
  have effect := @Block.delta_effect b.getHotEpoch inv was
    (fun i hi visible => by
      rw [npages] at hi
      obtain ⟨view, status, -⟩ := traced i hi visible
      rw [Block.view, looked i hi, view]
      exact status)
    (fun i hi visible => by
      rw [npages] at hi
      obtain ⟨view, -, data⟩ := traced i hi visible
      rw [Block.view, looked i hi, view]
      exact data)
  have saved := deltaSave_encode recorded h.active
  rw [← npages]
  refine ⟨b.getHotEpoch.delta, by rw [saved], ?_, delta_declares h.sound.hotEpoch_kept,
    h.sound.event (e := .deltaSave true) h.tight trivial,
    (deltaSave_inStep recorded h.sound.settled true).tight h.sound.unmapped h.tight⟩
  intro i hi visible
  rw [effect i hi visible, ends, view, looked i (npages ▸ hi)]
  exact (traced i (npages ▸ hi) visible).1

end Block

end Frame

end MiniBox
