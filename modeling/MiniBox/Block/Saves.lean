import MiniBox.Block.History
import MiniBox.Block.Observe

/-!
# Several deltas of one epoch

A delta may be saved more than once before the next epoch is opened.  Saving is not without
effect on the tracker: a hot page that has not changed is one frame nearer to cooling, and a
page written often enough goes hot.  `InEpoch` is a block in an epoch, saved any number of
times among the operations.

A page that goes hot is in the epoch's list already and stays there.  A page that cools is not,
and it is left writable: what the guest writes to it from then on is in no delta of the epoch.
So every delta is complete as long as no save before it cools a page that the list does not
have (`Block.Lasts`).
-/

namespace MiniBox

open Lib

/-! ## Saving in the middle of an epoch -/

/-- A save leaves the page watched: it is not the save that finds it unchanged for the last
time, or the page is in the list. -/
def Page.Lasts (p : Page) : Prop :=
  p.hotBit = true → p.shadow = some p.mem → p.epochDirty = true ∨ p.heat + 1 < coldAfter

def Block.Lasts (b : Block) : Prop :=
  ∀ i, i < b.npages → (b.page i).invisible = false → (b.page i).Lasts

/-- A block in the epoch that was opened on `o`; `lasts` holds whenever a delta is saved and
the epoch goes on. -/
inductive InEpoch (lasts : Block → Prop) (o : Block) : Block → Prop where
  | opened : InEpoch lasts o o.epochBegin.2
  | op {b : Block} (op : Op) : InEpoch lasts o b → InEpoch lasts o (op.run b)
  | save {b : Block} (forward : Bool) : InEpoch lasts o b → lasts b →
      InEpoch lasts o (b.deltaSave forward).2

theorem InEpoch.life {groupShift : Nat} {lasts : Block → Prop} {o b : Block}
    (life : Life groupShift o) (h : InEpoch lasts o b) : Life groupShift b := by
  induction h with
  | opened => exact .event .epochBegin life
  | op op _ ih => exact .event (.op op) ih
  | save forward _ _ ih => exact .event (.deltaSave forward) ih

section Page

variable {was : PageView} {p q : Page}

theorem Page.Change.invisible {c : Control} (h : p.Change c q) : q.invisible = p.invisible := by
  change q.core.invisible = p.core.invisible
  cases h with
  | called called =>
    cases called with
    | protect => rw [refreshed_core, restatus_core]
    | keep => rw [refreshed_core, freed_core, Core.freed]
    | drop => rw [refreshed_core, restatus_core, freed_core, Core.freed]
  | release => rw [released_core]
  | write => rfl
  | plan => rw [planned_core]
  | take =>
    rw [planTake_page]
    rfl
  | note => rw [refreshed_core]

/-- Looking at a page that lasts leaves it traced. -/
theorem Page.Traced.lookedAt (lasts : p.Lasts) (h : p.Traced was) : p.looked.Traced was := by
  unfold Page.looked
  rw [getHotEpochPage_page]
  dsimp only
  split_ifs with hot same cold
  · -- the page cools, so the list has it
    have listed : p.epochDirty = true := by
      rcases lasts hot same with listed | warm
      · exact listed
      · exact absurd cold (UInt8.not_le.mpr warm)
    rw [pageCool_page]
    exact ⟨h.status, fun _ => .inr listed, .inl listed⟩
  · exact ⟨h.status, h.watched, h.data⟩
  · exact ⟨h.status, fun _ => .inr rfl, .inl rfl⟩
  · exact h

/-- So does the whole of a save. -/
theorem Page.Traced.saved (lasts : p.Lasts) (h : p.Traced was) (saved : p.Saved q) :
    q.Traced was := by
  have looked := h.lookedAt lasts
  cases saved with
  | left => exact h
  | warmed heat seen => exact ⟨looked.status, looked.watched, looked.data⟩
  | heated heat seen may =>
    refine ⟨looked.status, fun _ => .inl rfl, ?_⟩
    rcases looked.data with listed | ⟨dirty, kept⟩
    · exact .inl listed
    · rw [may.1] at kept
      exact .inr ⟨dirty, congrArg some kept⟩

end Page

/-! ## The epoch -/

/-- A block in an epoch that began with the pages of `o`. -/
structure Block.Tracing (o b : Block) : Prop where
  tight : b.Tight
  active : b.epochActive = true
  npages : b.npages = o.npages
  shown : ∀ i, (b.page i).invisible = (o.page i).invisible
  traced : ∀ i, i < b.npages → (b.page i).invisible = false → (b.page i).Traced (o.view i)

section Epoch

variable {groupShift : Nat} {o b : Block}

theorem Block.Tracing.opened (life : Life groupShift o) (is_sealed : o.isSealed = true)
    (tight : o.Tight) (watched : o.Watched) : o.Tracing o.epochBegin.2 := by
  have guarded := life.guarded
  have control := epochBegin_toControl is_sealed
  have npages : o.epochBegin.2.npages = o.npages := by rw [control]; rfl
  have page := fun i => @epochBegin_page o is_sealed i
  have shown : ∀ i, (o.epochBegin.2.page i).invisible = (o.page i).invisible := by
    intro i
    rw [page]
    split_ifs
    · exact congrArg Core.invisible (Page.opened_core _ _)
    · rfl
  refine ⟨InSteps.tight o.epochBegin_inSteps guarded.unmapped tight, by rw [control], npages, shown,
    fun i hi visible => ?_⟩
  rw [shown] at visible
  rw [npages] at hi
  rw [page, if_pos hi]
  exact (watched i hi).opened visible (guarded.recorded.consistent i)

theorem Block.Tracing.op (life : Life groupShift b) (h : o.Tracing b) (op : Op) :
    o.Tracing (op.run b) := by
  obtain ⟨plan, control⟩ := op.toControl b
  have npages : (op.run b).npages = b.npages := by rw [control]; rfl
  have pages := op.keeps h.tight
    (P := fun i p => p.invisible = (o.page i).invisible ∧
      (i < b.npages → p.invisible = false → p.Traced (o.view i)))
    (fun i p q change ⟨shown, traced⟩ => ⟨change.invisible.trans shown, fun hi visible =>
      (traced hi (change.invisible ▸ visible)).change h.active (change.invisible ▸ visible) change⟩)
    fun i => ⟨h.shown i, h.traced i⟩
  refine ⟨InSteps.tight (op.inSteps life.recorded) life.guarded.unmapped h.tight, ?_,
    npages.trans h.npages, fun i => (pages i).1, fun i hi => (pages i).2 (npages ▸ hi)⟩
  rw [control]
  exact h.active

theorem Block.Tracing.save (life : Life groupShift b) (h : o.Tracing b) (lasts : b.Lasts)
    (forward : Bool) : o.Tracing (b.deltaSave forward).2 := by
  have guarded := life.guarded
  have control := b.deltaSave_toControl forward
  have saved := b.deltaSave_page forward
  have shown : ∀ i, ((b.deltaSave forward).2.page i).invisible = (b.page i).invisible := fun i =>
    congrArg Core.invisible (saved i).core
  refine ⟨(deltaSave_inStep guarded.recorded guarded.settled forward).tight guarded.unmapped h.tight,
    by rw [control]; exact h.active, by rw [control]; exact h.npages,
    fun i => (shown i).trans (h.shown i), fun i hi visible => ?_⟩
  rw [shown] at visible
  rw [control] at hi
  exact (h.traced i hi visible).saved (lasts i hi visible) (saved i)

theorem InEpoch.tracing (life : Life groupShift o) (is_sealed : o.isSealed = true)
    (tight : o.Tight) (watched : o.Watched) (h : InEpoch Block.Lasts o b) : o.Tracing b := by
  induction h with
  | opened => exact .opened life is_sealed tight watched
  | op op run ih => exact ih.op (run.life life) op
  | save forward run lasts ih => exact ih.save (run.life life) lasts forward

/-- The data list has page `i` with its bytes. -/
def Delta.Carries {n : Nat} (d : Delta n) (i : Nat) (bytes : PageBytes) : Prop :=
  ∃ e ∈ d.data, e.page = i ∧ e.bytes = bytes

/-- A page of the epoch's list is carried. -/
theorem Block.delta_carries {i : Nat} (hi : i < b.npages) (listed : (b.page i).epochBit = true) :
    b.delta.Carries i (b.page i).mem := by
  have small := b.npages_lt
  refine ⟨⟨if (b.page i).dirty then i else i + deltaIdxClean, (b.page i).mem⟩,
    List.mem_map.mpr ⟨i, by simp [hi, listed], rfl⟩, ?_, rfl⟩
  exact deltaPage_of_lt (by omega) _

/-- Every delta saved in the epoch has each visible page that differs from what it was when the
epoch was opened. -/
theorem InEpoch.complete (life : Life groupShift o) (is_sealed : o.isSealed = true)
    (tight : o.Tight) (watched : o.Watched) (h : InEpoch Block.Lasts o b) :
    ∃ d : Delta b.npages, (b.deltaSave true).1 = .ok d.encode ∧
      ∀ i, i < b.npages → (b.page i).invisible = false → (b.page i).mem ≠ (o.page i).mem →
        d.Carries i (b.page i).mem := by
  have tracing := h.tracing life is_sealed tight watched
  have guarded := (h.life life).guarded
  have npages : b.getHotEpoch.npages = b.npages := by rw [Block.getHotEpoch_toControl]
  rw [← npages]
  refine ⟨b.getHotEpoch.delta, by rw [Block.deltaSave_encode guarded.recorded tracing.active],
    fun i hi visible changed => ?_⟩
  have looked : b.getHotEpoch.page i = (b.page i).looked := by
    rw [Block.getHotEpoch_page, if_pos (npages ▸ hi)]
  obtain ⟨view, -, data⟩ := (tracing.traced i (npages ▸ hi) visible).looked
    (guarded.recorded.consistent i)
  have mem : (b.getHotEpoch.page i).mem = (b.page i).mem := by
    rw [looked]
    exact congrArg PageView.mem view
  rw [← mem]
  refine Block.delta_carries hi ?_
  rw [looked]
  exact data.resolve_right fun same => changed same.2

end Epoch

variable {b : Block} {i : Nat} {p : Page}

/-- One frame of the smallest machine: the page is written and the delta saved. -/
def Block.frameWriting (b : Block) (byte : UInt8) : Block :=
  ((Op.run b.epochBegin.2 (.write 0 (.fill byte))).deltaSave true).2

/-- The first write of an epoch, and a second one after a save. -/
def Block.writtenOnce : Block := Op.run onePage.sealNow.2.epochBegin.2 (.write 0 (.fill 1))

def Block.writtenTwice : Block := Op.run (writtenOnce.deltaSave true).2 (.write 0 (.fill 2))

theorem Block.sealed_life : Life 0 onePage.sealNow.2 := .sealNow onePage_built.life

theorem Block.writtenOnce_lasts : writtenOnce.Lasts := by
  intro i hi _ hot
  obtain rfl : i = 0 := Nat.lt_one_iff.mp hi
  exact absurd hot (by decide +kernel)

theorem InEpoch.writtenTwice : InEpoch Block.Lasts Block.onePage.sealNow.2 Block.writtenTwice :=
  @op _ _ (Block.writtenOnce.deltaSave true).2 (.write 0 (.fill 2))
    (@save _ _ Block.writtenOnce true
      (@op _ _ Block.onePage.sealNow.2.epochBegin.2 (.write 0 (.fill 1)) .opened)
      Block.writtenOnce_lasts)

/-- The second delta of an epoch, the page written before each. -/
theorem InEpoch.complete_twice : ∃ d : Delta Block.writtenTwice.npages,
      (Block.writtenTwice.deltaSave true).1 = .ok d.encode ∧
        d.Carries 0 (Block.writtenTwice.page 0).mem := by
  have life := Block.sealed_life
  obtain ⟨d, saved, carries⟩ := complete life (by decide +kernel)
    ((life.guarded.exact_ rfl).tight life.guarded.shift) Block.onePage_watched writtenTwice
  refine ⟨d, saved, carries 0 (by decide +kernel) (by decide +kernel) ?_⟩
  have now : (Block.writtenTwice.page 0).mem.val.head? = some 2 := by decide +kernel
  have was : (Block.onePage.sealNow.2.page 0).mem.val.head? = some 7 := by decide +kernel
  exact PageBytes.ne_of_head now was (by decide)

/-! ## A page that cools -/

/-- A save that finds a page in no list leaves it as `get_hot_epoch` does. -/
theorem Block.deltaSave_unlisted (active : b.epochActive = true) (hi : i < b.npages)
    (unlisted : (b.page i).looked.epochBit = false) :
    (b.deltaSave true).2.page i = (b.page i).looked := by
  have npages : b.getHotEpoch.npages = b.npages := by rw [getHotEpoch_toControl]
  have looked : b.getHotEpoch.page i = (b.page i).looked := by
    rw [getHotEpoch_page, if_pos hi]
  have left := b.getHotEpoch.onPages_inside (f := fun _ => heatWrittenPage b.getHotEpoch.epochNo)
    (R := fun _ p q => p.epochBit = false → q = p)
    (fun _ x _ unlisted => by simp [heatWrittenPage, unlisted])
    (Nat.zero_le i) (show i < 0 + b.getHotEpoch.npages by omega)
  unfold deltaSave
  rw [if_neg (by simp [active])]
  simp only [Bool.not_true, Bool.false_eq_true, if_false]
  rw [← looked]
  exact left (by rw [looked]; exact unlisted)

/-- A hot page that has not changed. -/
structure Page.Idle (p : Page) : Prop where
  hotBit : p.hotBit = true
  shadow : p.shadow = some p.mem
  unlisted : p.epochBit = false

theorem Page.Idle.looked (h : p.Idle) : p.looked = if coldAfter ≤ p.heat + 1 then
        (pageCool ⟨{ p with heat := p.heat + 1 }, {}⟩).page
      else { p with heat := p.heat + 1 } := by
  unfold Page.looked
  rw [getHotEpochPage_page, if_pos h.hotBit, if_pos h.shadow]

theorem Page.Idle.looked_unlisted (h : p.Idle) : p.looked.epochBit = false := by
  rw [h.looked]
  split_ifs
  · rw [pageCool_page]
    exact h.unlisted
  · exact h.unlisted

/-- Any number of saves, one after the other. -/
def Block.saves (b : Block) (count : Nat) : Block := (fun b => (b.deltaSave true).2)^[count] b

theorem Block.saves_succ (b : Block) (count : Nat) :
    b.saves (count + 1) = ((b.saves count).deltaSave true).2 := by
  unfold saves
  rw [Function.iterate_succ_apply']

theorem Block.saves_rest (b : Block) (count : Nat) :
    (b.saves count).toControl = b.toControl ∧ (b.saves count).os = b.os := by
  induction count with
  | zero => exact ⟨rfl, rfl⟩
  | succ count ih =>
    rw [saves_succ, deltaSave_toControl, deltaSave_os]
    exact ih

/-- An idle page is one frame nearer to cooling after each save. -/
theorem Block.saves_idle (active : b.epochActive = true) (hi : i < b.npages)
    (idle : (b.page i).Idle) (warm : (b.page i).heat = 0) :
    ∀ count : Nat, count < coldAfter.toNat →
      (b.saves count).page i = { b.page i with heat := UInt8.ofNat count }
  | 0, _ => by
    show b.page i = _
    rw [show UInt8.ofNat 0 = (b.page i).heat from warm.symm]
  | count + 1, few => by
    have before := saves_idle active hi idle warm count (by omega)
    obtain ⟨control, -⟩ := b.saves_rest count
    have still : ((b.saves count).page i).Idle := by
      rw [before]
      exact ⟨idle.hotBit, idle.shadow, idle.unlisted⟩
    rw [saves_succ, deltaSave_unlisted (by rw [control]; exact active) (by rw [control]; exact hi)
      still.looked_unlisted, still.looked, before]
    have next : UInt8.ofNat count + 1 = UInt8.ofNat (count + 1) := (UInt8.ofNat_add count 1).symm
    have notYet : ¬ coldAfter ≤ UInt8.ofNat (count + 1) := by
      have eight : coldAfter.toNat = 8 := rfl
      rw [UInt8.le_iff_toNat_le, UInt8.toNat_ofNat']
      omega
    simp only [next, if_neg notYet]

/-- The last of them cools it. -/
theorem Block.saves_cool (active : b.epochActive = true) (hi : i < b.npages)
    (idle : (b.page i).Idle) (warm : (b.page i).heat = 0) (hot : (b.page i).hot = true) :
    ((b.saves coldAfter.toNat).page i).hotBit = false ∧
      ((b.saves coldAfter.toNat).page i).epochBit = false ∧
      ((b.saves coldAfter.toNat).page i).core = (b.page i).core := by
  have seven := saves_idle active hi idle warm 7 (by decide)
  obtain ⟨control, -⟩ := b.saves_rest 7
  have still : ((b.saves 7).page i).Idle := by
    rw [seven]
    exact ⟨idle.hotBit, idle.shadow, idle.unlisted⟩
  rw [show coldAfter.toNat = 7 + 1 from rfl, saves_succ,
    deltaSave_unlisted (by rw [control]; exact active) (by rw [control]; exact hi)
      still.looked_unlisted, still.looked, seven,
    if_pos (show coldAfter ≤ UInt8.ofNat 7 + 1 by decide), pageCool_page]
  exact ⟨by simp [hot], idle.unlisted, rfl⟩

/-- A page that is neither hot nor in the list is not carried. -/
theorem Block.getHotEpoch_leaves (hi : i < b.npages) (cold : (b.page i).hotBit = false)
    (unlisted : (b.page i).epochBit = false) (bytes : PageBytes) :
    ¬ b.getHotEpoch.delta.Carries i bytes := by
  have npages : b.getHotEpoch.npages = b.npages := by rw [getHotEpoch_toControl]
  have left : (b.getHotEpoch.page i).epochBit = false := by
    rw [getHotEpoch_page, if_pos hi]
    unfold Page.looked
    rw [getHotEpochPage_page, if_neg (by rw [cold]; exact Bool.false_ne_true)]
    exact unlisted
  rintro ⟨e, member, page, -⟩
  obtain ⟨j, listed, rfl⟩ := List.mem_map.mp member
  obtain ⟨inside, listed⟩ := List.mem_filter.mp listed
  have small := b.getHotEpoch.npages_lt
  rw [List.mem_range] at inside
  rw [DataEntry.page, deltaPage_of_lt (by omega)] at page
  rw [page, left] at listed
  exact Bool.false_ne_true listed

/-- A write to a page mapped writable goes ahead. -/
theorem Block.guestWrite_writable (hi : i < b.npages)
    (tracked : statusTracked (b.page i).status = true)
    (writable : (b.os (b.hostPage i)).writable = true) (bytes : PageBytes) :
    (b.guestWrite i bytes).page i = { b.page i with mem := bytes } := by
  unfold guestWrite
  rw [if_neg (by simp [tracked, hi]), if_pos writable, poke_page, if_pos rfl]

/-- What the guest writes to a page that has cooled is in no delta. -/
theorem Block.saves_lose {b : Block} (active : b.epochActive = true) {i : Nat} (hi : i < b.npages)
    (idle : (b.page i).Idle) (warm : (b.page i).heat = 0) (hot : (b.page i).hot = true)
    (tracked : statusTracked (b.page i).status = true)
    (writable : (b.os (b.hostPage i)).writable = true) (bytes : PageBytes)
    (recorded : (Op.run (b.saves coldAfter.toNat) (.write i bytes)).Recorded) {c : Block}
    (is : c = Op.run (b.saves coldAfter.toNat) (.write i bytes)) :
    (c.page i).mem = bytes ∧ (c.page i).invisible = (b.page i).invisible ∧
      ∃ d : Delta c.getHotEpoch.npages,
        (c.deltaSave true).1 = .ok d.encode ∧ ∀ bytes, ¬ d.Carries i bytes := by
  obtain ⟨cold, unlisted, core⟩ := saves_cool active hi idle warm hot
  obtain ⟨control, os⟩ := b.saves_rest coldAfter.toNat
  have npages := congrArg Control.npages control
  obtain ⟨plan, same⟩ := (Op.write i bytes).toControl (b.saves coldAfter.toNat)
  have written : c.page i = { (b.saves coldAfter.toNat).page i with mem := bytes } := by
    rw [is]
    refine guestWrite_writable (npages ▸ hi) ?_ ?_ bytes
    · rw [show ((b.saves coldAfter.toNat).page i).status = (b.page i).status from
        congrArg Core.status core]
      exact tracked
    · rw [os, show (b.saves coldAfter.toNat).hostPage i = b.hostPage i from
        congrArg (fun c : Control => c.hostPage i) control]
      exact writable
  have inside : i < c.npages := by
    rw [is, same]
    exact npages ▸ hi
  have going : c.epochActive = true := by
    rw [is, same]
    exact control ▸ active
  refine ⟨by rw [written], ?_, c.getHotEpoch.delta, ?_, getHotEpoch_leaves inside ?_ ?_⟩
  · rw [written]
    exact congrArg Core.invisible core
  · rw [deltaSave_encode (is ▸ recorded) going]
  · rw [written]
    exact cold
  · rw [written]
    exact unlisted

theorem InEpoch.saves {o : Block} (h : InEpoch (fun _ => True) o b) (count : Nat) :
    InEpoch (fun _ => True) o (b.saves count) := by
  induction count with
  | zero => exact h
  | succ count ih =>
    rw [Block.saves_succ]
    exact .save true ih trivial

/-- A page written three frames in a row is hot. -/
def Block.warm : Block := ((onePage.sealNow.2.frameWriting 1).frameWriting 2).frameWriting 3

theorem Life.frameWriting {groupShift : Nat} (h : Life groupShift b) (byte : UInt8) :
    Life groupShift (b.frameWriting byte) :=
  .event (.deltaSave true) (.event (.op (.write 0 (.fill byte))) (.event .epochBegin h))

theorem Block.warm_life : Life 0 warm :=
  ((sealed_life.frameWriting 1).frameWriting 2).frameWriting 3

theorem Block.warm_sealed : warm.isSealed = true := by decide +kernel

theorem Block.warm_hot : (warm.page 0).hot = true := by decide +kernel

theorem Block.warm_npages : warm.npages = 1 := by decide +kernel

theorem Block.warm_watched : warm.Watched := by
  intro i hi _ _
  obtain rfl : i = 0 := Nat.lt_one_iff.mp (warm_npages ▸ hi)
  exact .inl warm_hot

/-- The page in the next epoch. -/
theorem Block.warm_opened : (warm.epochBegin.2.page 0).Idle := by
  have hotBit : (warm.page 0).hotBit = true := by decide +kernel
  rw [epochBegin_page warm_sealed, if_pos (by rw [warm_npages]; exact Nat.one_pos)]
  obtain ⟨held, unheldBit, is⟩ := (warm.page 0).opened_eq warm.swappedIn
  rw [is]
  exact ⟨hotBit, by simp only [if_pos hotBit], rfl⟩

/-- Saved eight times in that epoch without being written, and then written. -/
def Block.writtenCold : Block :=
  Op.run (warm.epochBegin.2.saves coldAfter.toNat) (.write 0 (.fill 4))

theorem InEpoch.writtenCold : InEpoch (fun _ => True) Block.warm Block.writtenCold :=
  @op _ _ (Block.warm.epochBegin.2.saves coldAfter.toNat) (.write 0 (.fill 4))
    (saves .opened _)

/-- No delta of the epoch has what was written then. -/
theorem InEpoch.incomplete_cooled :
    Life 0 Block.warm ∧ Block.warm.isSealed = true ∧ Block.warm.Tight ∧ Block.warm.Watched ∧
      InEpoch (fun _ => True) Block.warm Block.writtenCold ∧
      (Block.writtenCold.page 0).invisible = false ∧
      (Block.writtenCold.page 0).mem ≠ (Block.warm.page 0).mem ∧
      ∃ d : Delta Block.writtenCold.getHotEpoch.npages,
        (Block.writtenCold.deltaSave true).1 = .ok d.encode ∧ ∀ bytes, ¬ d.Carries 0 bytes := by
  have life := Block.warm_life
  have tight := (life.guarded.exact_ rfl).tight life.guarded.shift
  obtain ⟨mem, invisible, lost⟩ := @Block.saves_lose Block.warm.epochBegin.2 (by decide +kernel) 0
    (by decide +kernel) Block.warm_opened (by decide +kernel) (by decide +kernel)
    (by decide +kernel)
    (by decide +kernel) (.fill 4) (writtenCold.life life).recorded Block.writtenCold rfl
  refine ⟨life, Block.warm_sealed, tight, Block.warm_watched, writtenCold, ?_, ?_, lost⟩
  · rw [invisible]
    decide +kernel
  · have was : (Block.warm.page 0).mem.val.head? = some 3 := by decide +kernel
    have now : (Block.writtenCold.page 0).mem.val.head? = some 4 := by
      rw [mem]
      decide +kernel
    exact PageBytes.ne_of_head now was (by decide)

end MiniBox
