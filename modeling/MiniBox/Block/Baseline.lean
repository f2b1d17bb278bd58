import MiniBox.Block.Format
import MiniBox.Block.Operations

/-!
# Clean pages hold their baseline

Two facts make a savestate of dirty pages enough.  A clean visible page holds the bytes
it was sealed with, and a dirty visible page has them in its snapshot.  `Page.Kept` says
this of one page, relative to the sealed bytes, and survives every change an operation,
an epoch, a load or a delta makes.

`Page.Settled` says what heat, holds and the bits of `unheld_bits` have to do with each
other once no run of protections is open.  `Block.Sound` puts the two together with the
records, for every page of a sealed block.
-/

namespace MiniBox

open Lib

/-! ## Heat and holds -/

variable {p q : Page} {swappedIn : Bool}

/-- A hot page is dirty, not held and not among the pages to hold, a page among those is
not held, and nothing is hot or among them before the block is mapped. -/
structure Page.Settled (swappedIn : Bool) (p : Page) : Prop where
  hotDirty : p.hot = true → p.dirty = true
  hotHeld : p.hot = true → p.held = false
  hotUnheld : p.hot = true → p.unheldBit = false
  unheld : p.unheldBit = true → p.held = false
  unmapped : swappedIn = false → p.hot = false ∧ p.unheldBit = false

namespace Page.Settled

theorem noted (h : p.Settled true) : p.noted.Settled true := by
  obtain ⟨dirty, held, unheld, apart, -⟩ := h
  constructor <;> simp only [Page.noted, notProtected] <;> grind

theorem refreshed (h : p.Settled swappedIn) : (p.refreshed swappedIn).Settled swappedIn := by
  cases swappedIn with
  | false => exact h
  | true => exact h.noted

theorem restatus (h : p.Settled swappedIn) (epochActive : Bool) (status : UInt8) :
    (p.restatus epochActive status).Settled swappedIn := by
  obtain ⟨dirty, held, unheld, apart, unmapped⟩ := h
  constructor <;> simp only [Page.restatus, noteStatus_page, epochNoteStatusChange_page] <;> grind

theorem freed (h : p.Settled swappedIn) (planActive epochActive : Bool) :
    (p.freed planActive epochActive).Settled swappedIn := by
  obtain ⟨dirty, held, unheld, apart, unmapped⟩ := h
  constructor <;>
    simp only [Page.freed, freePage, setDirty_page, zeroPage_page, maybeSnapshot_page,
      planCapture_page, epochNoteStatusChange_page] <;> grind

theorem released (h : p.Settled true) (planActive epochActive : Bool) :
    (p.released planActive epochActive).Settled true := by
  obtain ⟨dirty, held, unheld, apart, -⟩ := h
  constructor <;>
    simp only [Page.released, tripPage, noteUnheld_page, setDirty_page, planCapture_page,
      epochCapture_page, maybeSnapshot_page] <;> grind

theorem planned (h : p.Settled swappedIn) (slot : Nat) :
    (p.planned slot swappedIn).Settled swappedIn := by
  unfold Page.planned
  split_ifs
  · cases swappedIn with
    | false =>
      have cold := h.unmapped rfl
      refine ⟨?_, ?_, ?_, ?_, fun _ => cold⟩ <;> simp [Page.refreshed, cold]
    | true =>
      -- owed to the plan, the page is noted read-only and leaves `unheld_bits`
      have closed : ∀ q : Page, q.planHold = .owed → q.nativeProt.writable = false := by
        intro q owed
        rw [Page.nativeProt_writable, owed, show (PlanHold.owed == PlanHold.free) = false from rfl,
          Bool.and_false]
      obtain ⟨dirty, held, unheld, apart, -⟩ := h
      constructor <;> simp only [Page.refreshed, if_true, Page.noted, notProtected] <;> grind
  · exact ⟨h.hotDirty, h.hotHeld, h.hotUnheld, h.unheld, h.unmapped⟩

theorem change {c : Control} {p q : Page} (change : p.Change c q)
    (h : p.Settled c.swappedIn) : q.Settled c.swappedIn := by
  cases change with
  | called called =>
    cases called with
    | protect status => exact (h.restatus _ _).refreshed
    | keep _ => exact (h.freed _ _).refreshed
    | drop _ => exact ((h.freed _ _).restatus _ _).refreshed
  | release swapped _ =>
    rw [swapped] at h ⊢
    exact h.released _ _
  | write bytes _ => exact ⟨h.hotDirty, h.hotHeld, h.hotUnheld, h.unheld, h.unmapped⟩
  | plan slot => exact h.planned slot
  | take wait i =>
    rw [planTake_page]
    exact ⟨h.hotDirty, h.hotHeld, h.hotUnheld, h.unheld, h.unmapped⟩
  | note => exact h.refreshed

theorem reload {base : PageBytes → Prop} {i : Nat} {x y : Track}
    (reload : Reload base i x y) (h : x.page.Settled swappedIn) : y.page.Settled swappedIn := by
  obtain ⟨dirty, held, unheld, apart, unmapped⟩ := h
  cases reload <;> constructor <;>
    simp only [maybeSnapshot_page, setDirty_page, setMem, shadowRewritten, noteStatus_page] <;>
      grind

theorem opened (h : p.Settled swappedIn) : (p.opened swappedIn).Settled swappedIn := by
  obtain ⟨dirty, held, unheld, apart, unmapped⟩ := h
  cases bit : p.unheldBit with
  | false =>
    constructor <;> simp only [Page.opened, bit, shadowNow_page, epochClearPage_page] <;> grind
  | true =>
    cases swappedIn with
    | false => exact absurd (unmapped rfl).2 (by simp [bit])
    | true =>
      have held := apart bit
      have cold : p.hot = false := by
        cases hot : p.hot with
        | false => rfl
        | true => exact absurd (unheld hot) (by simp [bit])
      unfold Page.opened
      rw [if_pos bit]
      refine Page.Settled.refreshed ⟨?_, ?_, ?_, ?_, by simp⟩ <;>
        simp [holdPage_page, takeUnheld, shadowNow_page, cold]

end Page.Settled

section

variable (consistent : p.Consistent)
include consistent

/-- A page looked at cools with nothing else about its protection changed. -/
theorem Page.looked_eq : ∃ heat shadow hotBit unheldBit epochDirty epochBit hot, p.looked =
        { p with heat, shadow, hotBit, unheldBit, epochDirty, epochBit, hot } ∧
      (hot = p.hot ∧ unheldBit = p.unheldBit ∨ p.hot = true ∧ hot = false ∧ unheldBit = true) := by
  have bit := consistent.hot
  unfold looked
  rw [getHotEpochPage_page]
  split_ifs with isHot same cold
  · refine ⟨_, _, _, _, _, _, _, pageCool_page _, .inr ⟨?_, rfl, ?_⟩⟩
    · rw [← bit, isHot]
    · rw [← bit, isHot, Bool.or_true]
  · exact ⟨_, _, _, _, _, _, _, rfl, .inl ⟨rfl, rfl⟩⟩
  · exact ⟨_, _, _, _, _, _, _, rfl, .inl ⟨rfl, rfl⟩⟩
  · exact ⟨_, _, _, _, _, _, _, rfl, .inl ⟨rfl, rfl⟩⟩

theorem Page.Settled.looked (h : p.Settled swappedIn) : p.looked.Settled swappedIn := by
  obtain ⟨heat, shadow, hotBit, unheldBit, epochDirty, epochBit, hot, is, moved⟩ :=
    looked_eq consistent
  obtain ⟨dirty, held, unheld, apart, unmapped⟩ := h
  rw [is]
  constructor <;> dsimp only <;> grind

theorem Page.Settled.saved (h : p.Settled swappedIn) (saved : p.Saved q) : q.Settled swappedIn := by
  have looked := h.looked consistent
  cases saved with
  | left => exact h
  | warmed heat seen =>
    exact ⟨looked.hotDirty, looked.hotHeld, looked.hotUnheld, looked.unheld, looked.unmapped⟩
  | heated heat seen may =>
    obtain ⟨dirty, held, unheld, apart, unmapped⟩ := looked
    obtain ⟨cold, visible, isDirty, asked, bit⟩ := may
    constructor <;> dsimp only [heated] <;> grind

/-- Closing an epoch loosens pages only. -/
theorem Page.Settled.saved_looser (h : p.Settled swappedIn) (saved : p.Saved q) : p.Looser q := by
  have looser : p.Looser p.looked := by
    obtain ⟨heat, shadow, hotBit, unheldBit, epochDirty, epochBit, hot, is, moved⟩ :=
      looked_eq consistent
    rw [is]
    refine ⟨.of_status rfl fun writable => ?_, id, id⟩
    rw [nativeProt_writable] at writable ⊢
    have dirty := h.hotDirty
    have held := h.hotHeld
    simp only [opens] at writable ⊢
    grind
  have looked := h.looked consistent
  cases saved with
  | left => exact .refl p
  | warmed heat seen => exact looser
  | heated heat seen may =>
    refine ⟨looser.1.trans (.of_status rfl fun opened => ?_), looser.2⟩
    rw [nativeProt_writable] at opened ⊢
    simp only [opens, heated] at opened ⊢
    grind

end

theorem Block.deltaSave_inStep {b : Block} (recorded : b.Recorded)
    (settled : ∀ i, (b.page i).Settled b.swappedIn) (forward : Bool) :
    b.InStep Page.Looser (b.deltaSave forward).2 :=
  .of_pages (by simp) (by simp) (by simp) (b.deltaSave_os forward)
    (fun _ hi => deltaSave_outside forward hi)
    fun i => (settled i).saved_looser (recorded.consistent i) (b.deltaSave_page forward i)

/-! ## The baseline -/

/-- A page against the bytes it was sealed with: clean, it holds them; dirty, its
snapshot does.  An invisible page is nobody's to restore. -/
structure Page.Kept (invisible : Bool) (base : PageBytes) (p : Page) : Prop where
  flag : p.invisible = invisible
  clean : invisible = false → p.dirty = false → p.mem = base
  snap : invisible = false → p.snap = .none → p.dirty = false
  baseline : invisible = false → ∀ bytes, p.baseline = some bytes → bytes = base

section Kept

variable {invisible : Bool} {base : PageBytes} {p : Page} {q : Page} {x : Track}

namespace Page.Kept

/-- The baseline looks at four fields of the page only. -/
theorem congr (h : p.Kept invisible base) (flag : q.invisible = p.invisible)
    (dirty : q.dirty = p.dirty) (snap : q.snap = p.snap) (mem : q.mem = p.mem) :
    q.Kept invisible base := by
  have same : q.baseline = p.baseline := by rw [Page.baseline, Page.baseline, snap]
  refine ⟨flag.trans h.flag, ?_, ?_, ?_⟩
  · rw [dirty, mem]
    exact h.clean
  · rw [snap, dirty]
    exact h.snap
  · rw [same]
    exact h.baseline

theorem refreshed (h : p.Kept invisible base) (swappedIn : Bool) :
    (p.refreshed swappedIn).Kept invisible base := by
  cases swappedIn with
  | false => exact h
  | true => exact h.congr rfl rfl rfl rfl

theorem restatus (h : p.Kept invisible base) (epochActive : Bool) (status : UInt8) :
    (p.restatus epochActive status).Kept invisible base := by
  refine h.congr ?_ ?_ ?_ ?_ <;> simp [Page.restatus]

/-- Taking the snapshot of a clean page keeps the baseline it had. -/
theorem snapshot (h : x.page.Kept invisible base) : (maybeSnapshot x).page.Kept invisible base := by
  rw [maybeSnapshot_page]
  cases snap : x.page.snap with
  | none =>
    refine ⟨h.flag, h.clean, by simp, ?_⟩
    intro visible bytes is
    have dirty := h.snap visible snap
    simp only [Page.baseline, if_true, Option.some.injEq] at is
    rw [← is, h.clean visible dirty]
  | zero => exact h.congr rfl rfl (by simp [snap]) rfl
  | data bytes => exact h.congr rfl rfl (by simp [snap]) rfl

/-- A page with a snapshot may hold anything once it is dirty. -/
theorem dirtied (h : p.Kept invisible base) (flag : q.invisible = p.invisible)
    (dirty : q.dirty = true) (snap : q.snap = p.snap) (present : p.snap ≠ .none) :
    q.Kept invisible base := by
  have same : q.baseline = p.baseline := by rw [Page.baseline, Page.baseline, snap]
  refine ⟨flag.trans h.flag, ?_, ?_, ?_⟩
  · rw [dirty]
    simp
  · rw [snap]
    exact fun _ none => absurd none present
  · rw [same]
    exact h.baseline

/-- A page given the bytes it was sealed with is clean. -/
theorem cleaned (h : p.Kept invisible base) (flag : q.invisible = p.invisible)
    (dirty : q.dirty = false) (snap : q.snap = p.snap) (mem : invisible = false → q.mem = base) :
    q.Kept invisible base := by
  have same : q.baseline = p.baseline := by rw [Page.baseline, Page.baseline, snap]
  refine ⟨flag.trans h.flag, fun visible _ => mem visible, fun _ _ => dirty, ?_⟩
  rw [same]
  exact h.baseline

/-- A page is dirty only against a baseline it has. -/
theorem present (h : p.Kept invisible base) (dirty : p.dirty = true)
    (visible : invisible = false) : p.snap ≠ .none := by
  intro none
  rw [h.snap visible none] at dirty
  exact Bool.noConfusion dirty

end Page.Kept

/-- The fields of a freed page the baseline looks at. -/
theorem Page.freed_fields (planActive epochActive : Bool) (p : Page) :
    let snap := (maybeSnapshot ⟨p, {}⟩).page.snap
    (p.freed planActive epochActive).invisible = p.invisible ∧
      (p.freed planActive epochActive).snap = snap ∧
      (p.freed planActive epochActive).dirty = (!p.invisible && snap != .zero) ∧
      (p.freed planActive epochActive).mem =
        if !p.dirty && !p.invisible && snap == .zero then p.mem else .zero := by
  simp [freed, freePage]

namespace Page.Kept

theorem freed (h : p.Kept invisible base) (planActive epochActive : Bool) :
    (p.freed planActive epochActive).Kept invisible base := by
  have copied : (maybeSnapshot ⟨p, {}⟩).page.Kept invisible base := Page.Kept.snapshot h
  have present := maybeSnapshot_snap ⟨p, {}⟩
  obtain ⟨flag, snap, dirty, mem⟩ := p.freed_fields planActive epochActive
  have flag' : (maybeSnapshot ⟨p, {}⟩).page.invisible = p.invisible := by rw [maybeSnapshot_page]
  cases hidden : invisible with
  | true =>
    refine ⟨?_, by simp, by simp, by simp⟩
    rw [flag, h.flag, hidden]
  | false =>
    have visible : p.invisible = false := by rw [h.flag, hidden]
    rw [hidden] at copied h
    cases kind : (maybeSnapshot ⟨p, {}⟩).page.snap with
    | none => exact absurd kind present
    | zero =>
      -- a zero baseline: the page is clean and reads zero
      have zero : PageBytes.zero = base :=
        copied.baseline rfl .zero (by rw [Page.baseline, kind])
      refine copied.cleaned (flag.trans flag'.symm) ?_ snap fun _ => ?_
      · rw [dirty, kind, bne_self_eq_false, Bool.and_false]
      · rw [mem, kind]
        split_ifs with clean
        · simp only [Bool.and_eq_true, Bool.not_eq_true'] at clean
          exact h.clean rfl clean.1.1
        · exact zero
    | data bytes =>
      refine copied.dirtied (flag.trans flag'.symm) ?_ snap present
      rw [dirty, kind, visible]
      rfl

theorem change {c : Control} {q : Page} (change : p.Change c q)
    (settled : p.Settled c.swappedIn) (h : p.Kept invisible base) : q.Kept invisible base := by
  cases change with
  | called called =>
    cases called with
    | protect status => exact (h.restatus _ _).refreshed _
    | keep _ => exact (h.freed _ _).refreshed _
    | drop _ => exact ((h.freed _ _).restatus _ _).refreshed _
  | release _ _ =>
    have copied : (maybeSnapshot ⟨p, {}⟩).page.Kept invisible base := Page.Kept.snapshot h
    refine copied.dirtied ?_ ?_ ?_ (maybeSnapshot_snap _) <;> simp [Page.released, tripPage]
  | write bytes opens =>
    have dirty : p.dirty = true := by
      simp only [Page.opens, Bool.and_eq_true, Bool.or_eq_true] at opens
      rcases opens.2 with hot | ⟨dirty, -⟩
      · exact settled.hotDirty hot
      · exact dirty
    refine ⟨h.flag, ?_, h.snap, h.baseline⟩
    intro _ clean
    rw [dirty] at clean
    exact Bool.noConfusion clean
  | plan slot =>
    unfold Page.planned
    split_ifs
    · refine Page.Kept.refreshed ?_ _
      exact h.congr rfl rfl rfl rfl
    · exact h.congr rfl rfl rfl rfl
  | take wait i =>
    rw [planTake_page]
    exact h.congr rfl rfl rfl rfl
  | note => exact h.refreshed _

/-- A load, or a delta whose clean pages hold what they were sealed with, keeps the
baseline. -/
theorem reload {good : PageBytes → Prop}
    (sound : invisible = false → ∀ bytes, good bytes → bytes = base) {i : Nat} {y : Track}
    (reload : Reload good i x y) (h : x.page.Kept invisible base) : y.page.Kept invisible base := by
  cases reload with
  | snapshot => exact h.snapshot
  | store bytes present => exact h.dirtied (by simp [setMem]) (by simp) (by simp [setMem]) present
  | rewrite bytes dirty =>
    refine ⟨h.flag, ?_, h.snap, h.baseline⟩
    intro _ clean
    rw [show (setMem bytes x).page.dirty = true from dirty] at clean
    exact Bool.noConfusion clean
  | revert is =>
    refine h.cleaned (by simp [setMem]) (by simp) (by simp [setMem]) fun visible => ?_
    simp [setMem, h.baseline visible _ is]
  | back declared _ _ =>
    refine h.cleaned (by simp [setMem]) (by simp) (by simp [setMem]) fun visible => ?_
    simp [setMem, sound visible _ declared]
  | again => refine h.congr ?_ ?_ ?_ ?_ <;> simp
  | shadow =>
    unfold shadowRewritten
    split_ifs
    · exact h.congr rfl rfl rfl rfl
    · exact h
  | restatus status => refine h.congr ?_ ?_ ?_ ?_ <;> simp

theorem opened (h : p.Kept invisible base) (swappedIn : Bool) :
    (p.opened swappedIn).Kept invisible base := by
  obtain ⟨held, unheldBit, is⟩ := p.opened_eq swappedIn
  rw [is]
  exact h.congr rfl rfl rfl rfl

theorem saved (consistent : p.Consistent) (h : p.Kept invisible base) (saved : p.Saved q) :
    q.Kept invisible base := by
  have looked : p.looked.Kept invisible base := by
    obtain ⟨_, _, _, _, _, _, _, is, -⟩ := looked_eq consistent
    rw [is]
    exact h.congr rfl rfl rfl rfl
  cases saved with
  | left => exact h
  | warmed heat seen => exact looked.congr rfl rfl rfl rfl
  | heated heat seen _ => exact looked.congr rfl rfl rfl rfl

end Page.Kept

end Kept

end MiniBox
