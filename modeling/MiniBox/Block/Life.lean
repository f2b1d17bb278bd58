import MiniBox.Block.Seal

/-!
# The life of a block

`Life` is every block there is: what any host and guest make of a new block, sealed or
not, in any order and with any streams.  Its records are always right, and on a host whose
pages are the machine's the OS's view is exact: `Life.guarded`.

`Tracked` adds the faults by themselves, whichever way they end, and not only with the write that
they let through.  `Tracked.records_agree` is that the tracker's records agree: what
`mb_block_maps_consistent` looks at, and the counts.
-/

namespace MiniBox

open Lib

variable {groupShift : Nat} {b : Block}

/-- A block at any time of its life. -/
inductive Life (groupShift : Nat) : Block → Prop where
  | new {addr : Range} {b : Block} : Block.new addr groupShift = some b → Life groupShift b
  | setup {b : Block} (s : Setup) : Life groupShift b → Life groupShift (s.run b)
  | event {b : Block} (e : Event) : Life groupShift b → Life groupShift (e.run b)
  | sealNow {b : Block} : Life groupShift b → Life groupShift b.sealNow.2

theorem Built.life (h : Built groupShift b) : Life groupShift b := by
  induction h with
  | new is => exact .new is
  | step s _ ih => exact .setup s ih

/-! ## Records -/

theorem Setup.recorded (h : b.Recorded) (s : Setup) : (s.run b).Recorded := by
  cases s with
  | activate => exact h.activate
  | op o => exact o.recorded h
  | mremapMaymove addr newSize arena maymove =>
    exact HostSteps.recorded (Block.mremapMaymove_steps h addr newSize arena maymove) h
  | markInvisible addr => exact h.markInvisible addr
  | copyFromExternal src start =>
    exact HostSteps.recorded (Block.copyFromExternal_steps b src start) h

theorem Life.recorded (h : Life groupShift b) : b.Recorded := by
  induction h with
  | new is => exact .new is
  | setup s _ ih => exact s.recorded ih
  | event e _ ih => exact e.recorded ih
  | sealNow _ ih => exact ih.sealNow

/-! ## What a block is known by -/

theorem Setup.lasting (s : Setup) (recorded : b.Recorded) :
    (s.run b).addr = b.addr ∧ (s.run b).isSealed = b.isSealed ∧ (s.run b).hash = b.hash := by
  cases s with
  | activate =>
    obtain ⟨addr, -, is_sealed, hash, -⟩ := b.activate_same
    exact ⟨addr, is_sealed, hash⟩
  | op o =>
    have same := o.same b
    exact ⟨same.addr, same.is_sealed, same.hash⟩
  | mremapMaymove addr newSize arena maymove =>
    rw [run, HostSteps.toControl (Block.mremapMaymove_steps recorded addr newSize arena maymove)]
    exact ⟨rfl, rfl, rfl⟩
  | markInvisible addr =>
    rw [run, (b.markInvisible_inStep addr).2.1]
    exact ⟨rfl, rfl, rfl⟩
  | copyFromExternal src start =>
    rw [run, HostSteps.toControl (b.copyFromExternal_steps src start)]
    exact ⟨rfl, rfl, rfl⟩

/-- A sealed block has a hash. -/
theorem Life.hash (h : Life groupShift b) (is_sealed : b.isSealed = true) : b.hash.length = 32 := by
  induction h with
  | new made =>
    unfold Block.new at made
    split_ifs at made
    cases made
    cases is_sealed
  | setup s life ih =>
    obtain ⟨-, same, hash⟩ := s.lasting life.recorded
    rw [hash]
    exact ih (same.symm.trans is_sealed)
  | @event b e _ ih =>
    have same := e.same b
    rw [same.hash]
    exact ih (same.is_sealed.symm.trans is_sealed)
  | @sealNow b _ ih =>
    cases before : b.isSealed with
    | true =>
      rw [Block.sealNow, if_pos before]
      exact ih before
    | false =>
      obtain ⟨hash, length, is⟩ := Block.sealNow_is before
      rw [is]
      exact length

/-! ## Protections -/

/-- What holds of every block: its records, and what the OS was told of its pages. -/
structure Block.Guarded (groupShift : Nat) (b : Block) : Prop where
  shift : b.groupShift = groupShift
  recorded : b.Recorded
  unmapped : b.Unmapped
  settled : ∀ i, (b.page i).Settled b.swappedIn
  exact_ : groupShift = 0 → b.Exact
  shown : groupShift = 0 → b.Shown

theorem Block.Guarded.new {addr : Range} {groupShift : Nat} {b : Block}
    (h : Block.new addr groupShift = some b) : b.Guarded groupShift := by
  have fresh := Fresh.new h
  refine ⟨fresh.shift, fresh.recorded, fresh.unmapped, fresh.settled, fresh.exact_, fun _ => ?_⟩
  unfold Block.new at h
  split_ifs at h
  cases h
  exact fun swapped => Bool.noConfusion swapped

/-- Every page of the block has just been told to the OS. -/
theorem Block.refreshAll_shown (single : b.groupShift = 0) : b.refreshAll.Shown := by
  intro swapped i hi
  dsimp only [refreshAll] at swapped hi ⊢
  have control := b.refreshRange_toControl 0 b.npages
  rw [control] at swapped hi
  have told := @refreshRange_os_touched b 0 b.npages _
    ⟨swapped, Control.touches_of_mem (Nat.zero_le i) (by omega)⟩
  rw [Control.hostPage_one single] at told
  rw [told, ← refreshRange_groupNativeProt b 0 b.npages, groupNativeProt_one
    (by rw [control, single])]

section Steps

variable {groupShift : Nat} {b c : Block}

theorem Block.Guarded.of_inSteps (h : b.Guarded groupShift) (steps : InSteps Page.Wider b c)
    (recorded : c.Recorded) (settled : ∀ i, (c.page i).Settled b.swappedIn) :
    c.Guarded groupShift := by
  obtain ⟨-, shift, swapped, -⟩ := InSteps.rest steps
  refine ⟨shift.trans h.shift, recorded, InSteps.unmapped steps h.unmapped, fun i => ?_,
    fun single => ?_, fun single => ?_⟩
  · rw [swapped]
    exact settled i
  · exact InSteps.exact steps h.unmapped (h.shift.trans single) (h.exact_ single)
  · exact InSteps.shown steps (h.shift.trans single) (h.shown single)

theorem Block.Guarded.activate (h : b.Guarded groupShift) : b.activate.Guarded groupShift := by
  obtain ⟨unmapped, -, exact_⟩ := activate_guarded h.unmapped
  refine ⟨b.activate_same.2.1.trans h.shift, h.recorded.activate, unmapped,
    activate_settled h.settled, fun single => exact_ (h.shift.trans single) (h.exact_ single),
    fun single => ?_⟩
  rcases b.activate_cases with ⟨active, is⟩ | ⟨-, is⟩
  · rw [is]
    exact h.shown single
  · rw [is]
    exact refreshAll_shown (b := { b with swappedIn := true }) (h.shift.trans single)

/-- A page of a mapped block stays settled through any event. -/
theorem Event.settled (recorded : b.Recorded) (settled : ∀ i, (b.page i).Settled b.swappedIn)
    (e : Event) (i : Nat) : ((e.run b).page i).Settled b.swappedIn := by
  exact keeps e.declares_any (P := fun _ p => p.Settled b.swappedIn)
    (fun i p q change h => h.change change)
    (fun i bytes _ _ h => ⟨h.hotDirty, h.hotHeld, h.hotUnheld, h.unheld, h.unmapped⟩)
    (fun i p h => h.opened) (fun i q saved h => h.saved (recorded.consistent i) saved)
    (fun i p h => ⟨h.hotDirty, h.hotHeld, h.hotUnheld, h.unheld, h.unmapped⟩)
    (fun i x y reload h => h.reload reload) settled i

theorem Block.Guarded.event (h : b.Guarded groupShift) (e : Event) : (e.run b).Guarded groupShift :=
  h.of_inSteps (e.inSteps h.recorded h.settled) (e.recorded h.recorded)
    (e.settled h.recorded h.settled)

theorem Block.Guarded.host {Q : Nat → Page → Bool → Prop} (h : b.Guarded groupShift)
    (steps : HostSteps Q b c) : c.Guarded groupShift := by
  have settled := HostSteps.settled steps h.settled
  exact h.of_inSteps (InSteps.wider (HostSteps.inSteps steps h.settled))
    (HostSteps.recorded steps h.recorded) settled

theorem Block.markInvisible_settled (settled : ∀ i, (b.page i).Settled b.swappedIn) (addr : Range)
    (i : Nat) : ((b.markInvisible addr).2.page i).Settled b.swappedIn := by
  rcases (b.markInvisible_inStep addr).2.2 i with same | hidden
  · rw [same]
    exact settled i
  · rw [hidden]
    exact (settled i).hidden.refreshed

theorem Block.Guarded.markInvisible (h : b.Guarded groupShift) (addr : Range) :
    (b.markInvisible addr).2.Guarded groupShift :=
  h.of_inSteps (InSteps.wider (.single (b.markInvisible_inStep addr).1))
    (h.recorded.markInvisible addr) (markInvisible_settled h.settled addr)

theorem Block.sealNow_settled (settled : ∀ i, (b.page i).Settled b.swappedIn) (i : Nat) :
    (b.sealNow.2.page i).Settled b.swappedIn := by
  cases is_sealed : b.isSealed with
  | true =>
    rw [sealNow, if_pos is_sealed]
    exact settled i
  | false =>
    rw [sealNow_page is_sealed]
    split_ifs
    · exact (settled i).sealing.refreshed
    · exact settled i

theorem Block.Guarded.sealNow (h : b.Guarded groupShift) : b.sealNow.2.Guarded groupShift := by
  cases is_sealed : b.isSealed with
  | true =>
    rw [Block.sealNow, if_pos is_sealed]
    exact h
  | false =>
    exact h.of_inSteps (InSteps.wider b.sealNow_inSteps) h.recorded.sealNow
      (sealNow_settled h.settled)

end Steps

theorem Life.guarded {groupShift : Nat} {b : Block} (h : Life groupShift b) :
    b.Guarded groupShift := by
  induction h with
  | new is => exact .new is
  | setup s _ ih =>
    cases s with
    | activate => exact ih.activate
    | op o => exact ih.event (.op o)
    | mremapMaymove addr newSize arena maymove =>
      exact ih.host (Block.mremapMaymove_steps ih.recorded addr newSize arena maymove)
    | markInvisible addr => exact ih.markInvisible addr
    | copyFromExternal src start => exact ih.host (Block.copyFromExternal_steps _ src start)
  | event e _ ih => exact ih.event e
  | sealNow _ ih => exact ih.sealNow

/-! ## The records of the tracker -/

/-- What `mb_block_maps_consistent` asks of each page. -/
def Page.mapsConsistent (p : Page) : Bool :=
  p.statusMap == p.status && p.dirtyMap == p.dirty && p.hot == p.hotBit &&
    !(p.hot && (!p.dirty || p.shadow.isNone || p.unheldBit)) &&
    !(p.held && (p.hot || p.unheldBit)) &&
    !(!p.hot && p.shadow.isSome && p.status != stRWStack)

def Block.mapsConsistent (b : Block) : Bool :=
  (List.range b.npages).all (fun i => (b.page i).mapsConsistent) &&
    countBelow b.npages (fun i => (b.page i).hot) == b.shared.nhot

/-- A block after any calls, faults, plans, epochs, loads, deltas and seals. -/
inductive Tracked (groupShift : Nat) : Block → Prop where
  | new {addr : Range} {b : Block} : Block.new addr groupShift = some b → Tracked groupShift b
  | setup {b : Block} (s : Setup) : Tracked groupShift b → Tracked groupShift (s.run b)
  | event {b : Block} (e : Event) : Tracked groupShift b → Tracked groupShift (e.run b)
  | trip {b : Block} (room : Nat → Bool) (protectOk : Bool) (i : Nat) : Tracked groupShift b →
      Tracked groupShift (b.trip room protectOk i).2
  | epochClear {b : Block} : Tracked groupShift b → Tracked groupShift b.epochClear
  | sealNow {b : Block} : Tracked groupShift b → Tracked groupShift b.sealNow.2
  | deactivate {b : Block} : Tracked groupShift b → Tracked groupShift { b with active := false }

theorem Tracked.recorded (h : Tracked groupShift b) : b.Recorded := by
  induction h with
  | new is => exact .new is
  | setup s _ ih => exact s.recorded ih
  | event e _ ih => exact e.recorded ih
  | trip room protectOk i _ ih => exact ih.trip room protectOk i
  | epochClear _ ih => exact ih.epochClear
  | sealNow _ ih => exact ih.sealNow
  | deactivate _ ih => exact ih.congr rfl (.inl rfl) rfl rfl

theorem Page.Settled.maybeSnapshot {p : Page} {swappedIn : Bool} (h : p.Settled swappedIn) :
    (maybeSnapshot ⟨p, {}⟩).page.Settled swappedIn := by
  rw [maybeSnapshot_page]
  exact ⟨h.hotDirty, h.hotHeld, h.hotUnheld, h.unheld, h.unmapped⟩

/-- A page taken out of the write's way, and noted once the OS lets the write through. -/
theorem Page.Settled.tripPage {p : Page} (h : p.Settled true) (planActive epochActive : Bool) :
    (tripPage planActive epochActive 0 ⟨p, {}⟩).page.Settled true ∧
      (noteUnheld (tripPage planActive epochActive 0 ⟨p, {}⟩)).page.Settled true := by
  obtain ⟨dirty, held, unheld, apart, -⟩ := h
  constructor <;> constructor <;>
    simp only [MiniBox.tripPage, noteUnheld_page, setDirty_page, planCapture_page,
      epochCapture_page] <;> grind

theorem Block.trip_settled (settled : ∀ j, (b.page j).Settled b.swappedIn) (room : Nat → Bool)
    (protectOk : Bool) (i j : Nat) :
    ((b.trip room protectOk i).2.page j).Settled b.swappedIn := by
  unfold trip
  split
  · exact settled j
  next mine =>
    simp only [Bool.or_eq_true, not_or, Bool.not_eq_true', Bool.not_eq_false] at mine
    rw [mine.1.1] at settled ⊢
    dsimp only
    generalize firstFrom _ _ _ - b.groupFirst i = count
    have copied : ∀ count j, ((b.onPages (b.groupFirst i) count fun q x =>
        if x.page.heldBy (q == i) then maybeSnapshot x else x).page j).Settled true := by
      intro count j
      rw [tripSnapshots_page]
      split_ifs
      · exact (settled j).maybeSnapshot
      · exact settled j
    split
    · exact copied _ j
    · split
      · rw [tripPages_page]
        split_ifs
        · exact ((copied _ j).tripPage _ _).1
        · exact copied _ j
      · rw [tripNotes_page]
        dsimp only [protect]
        rw [tripPages_page]
        split_ifs
        · exact ((copied _ j).tripPage _ _).2
        · exact copied _ j

theorem Setup.settled (recorded : b.Recorded) (settled : ∀ i, (b.page i).Settled b.swappedIn)
    (s : Setup) (i : Nat) : ((s.run b).page i).Settled (s.run b).swappedIn := by
  cases s with
  | activate => exact Block.activate_settled settled i
  | op o =>
    rw [run, (o.same b).swapped]
    exact (Event.op o).settled recorded settled i
  | mremapMaymove addr newSize arena maymove =>
    have steps := Block.mremapMaymove_steps recorded addr newSize arena maymove
    rw [run, HostSteps.toControl steps]
    exact HostSteps.settled steps settled i
  | markInvisible addr =>
    rw [run, (b.markInvisible_inStep addr).2.1]
    exact Block.markInvisible_settled settled addr i
  | copyFromExternal src start =>
    have steps := b.copyFromExternal_steps src start
    rw [run, HostSteps.toControl steps]
    exact HostSteps.settled steps settled i

theorem Tracked.settled (h : Tracked groupShift b) : ∀ i, (b.page i).Settled b.swappedIn := by
  induction h with
  | new is => exact (Block.Fresh.new is).settled
  | setup s before ih => exact s.settled before.recorded ih
  | @event b e before ih =>
    rw [(e.same b).swapped]
    exact e.settled before.recorded ih
  | @trip b room protectOk i _ ih =>
    rw [b.trip_toControl room protectOk i]
    exact Block.trip_settled ih room protectOk i
  | @epochClear b _ ih =>
    intro i
    dsimp only [Block.epochClear]
    rw [b.epochForget_page i, b.epochForget_toControl]
    have here := ih i
    split_ifs
    · exact ⟨here.hotDirty, here.hotHeld, here.hotUnheld, here.unheld, here.unmapped⟩
    · exact here
  | deactivate _ ih => exact ih
  | @sealNow b _ ih =>
    obtain ⟨-, -, swapped, -⟩ := Block.InSteps.rest b.sealNow_inSteps
    rw [swapped]
    exact Block.sealNow_settled ih

/-- The records agree: what `mb_block_maps_consistent` looks at does, the counts are those of the
free pages of each group and of the pages in the epoch's two lists, and the first of these lists is
of the pages flagged as dirty in it. -/
theorem Tracked.records_agree (h : Tracked groupShift b) : b.mapsConsistent = true ∧
      (∀ g, b.shared.groupFree g = countBelow b.npages fun i =>
        i >>> groupShiftFree == g && (b.page i).status == stFree) ∧
      b.shared.epochNdirty = countBelow b.npages (fun i => (b.page i).epochBit) ∧
      b.shared.epochNstat = countBelow b.npages (fun i => (b.page i).statBit) ∧
      ∀ i, (b.page i).epochBit = (b.page i).epochDirty := by
  have recorded := h.recorded
  refine ⟨?_, recorded.free, recorded.ndirty, recorded.nstat, fun i =>
    (recorded.consistent i).epoch⟩
  simp only [Block.mapsConsistent, Bool.and_eq_true, List.all_eq_true, beq_iff_eq]
  refine ⟨fun i _ => ?_, recorded.nhot.symm⟩
  obtain ⟨status, dirty, hot, -, hotDirty, shadow⟩ := recorded.consistent i
  obtain ⟨-, hotHeld, hotUnheld, unheld, -⟩ := h.settled i
  unfold Page.mapsConsistent
  grind

/-- A page is mapped, the block is sealed, and the page is written. -/
theorem Tracked.records_agree_written : ∃ b, Tracked 0 b ∧ (b.page 0).dirty = true ∧
    b.mapsConsistent = true := by
  have start : Tracked 0 ((Block.new (pagesAt 0 2) 0).get rfl) := .new (Option.some_get _).symm
  have is_sealed := sealNow (setup (.op (.mmapFixed (pagesAt 0 1) .rw false false))
    (setup .activate start))
  have written := trip (fun _ => true) true 0 is_sealed
  exact ⟨_, written, by decide +kernel, (records_agree written).1⟩

end MiniBox
