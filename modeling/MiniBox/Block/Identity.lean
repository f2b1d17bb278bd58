import MiniBox.Block.Roundtrip

/-!
# What the hash names

The seal hashes the address range and one tag for each page: that the page has a zero
baseline, or that its live bytes are the baseline.  Which of the two it is depends on the
bytes and the invisible set alone (`Page.Raw.sealTag`), so the hash does not remember how the
pages came to hold what they hold.

The bytes of a live page are not hashed.  Two machines of one hash take up each other's
states, and what they show afterwards agrees exactly where the pages a state leaves out agree.
A mapping that moves after the seal takes its invisibility along and leaves its pages dirty
without a baseline; then the two must still have their invisible pages in common, and the one
that loads a baseline for what it has dirty.
-/

namespace MiniBox

open Lib

/-! ## The hash and the history before the seal -/

/-- What a page adds to the hash, told from its flag and its bytes. -/
def Page.tag (p : Page) : Bytes := le 4 (if p.invisible = false ∧ p.mem ≠ .zero then 1 else 2)

/-- Whatever happened to a page before the seal, its tag is told from its flag and bytes. -/
theorem Page.Raw.sealTag {p : Page} (h : p.Raw) : p.sealing.sealTag = p.tag := by
  obtain ⟨snap, clean⟩ := h
  unfold Page.sealing
  rw [sealPage_page]
  cases hidden : p.invisible with
  | true => simp [Page.sealTag, Page.tag, hidden, snap]
  | false =>
    cases dirty : p.dirty with
    | false => simp [Page.sealTag, Page.tag, dirty, snap, clean hidden dirty]
    | true =>
      by_cases zero : p.mem = .zero
      · simp [Page.sealTag, Page.tag, hidden, dirty, zero]
      · simp [Page.sealTag, Page.tag, hidden, dirty, zero]

theorem Block.Fresh.sealInputs {groupShift : Nat} {b : Block} (h : b.Fresh groupShift) :
    b.sealing.refreshAll.sealInputs =
      b.addr.bytes :: (List.range b.npages).map fun i => (b.page i).tag := by
  have control : b.sealing.refreshAll.toControl = { b.toControl with epochActive := false } := by
    rw [refreshAll, refreshRange_toControl, sealing_toControl]
  have npages : b.sealing.refreshAll.npages = b.npages := by
    rw [control]
    rfl
  have addr : b.sealing.refreshAll.addr = b.addr := by rw [control]
  rw [Block.sealInputs, addr, npages]
  congr 1
  refine List.map_congr_left fun i inside => ?_
  have tag : (b.sealing.refreshAll.page i).sealTag = (b.sealing.page i).sealTag := by
    rcases b.sealing.refreshAll_page i with same | noted
    · rw [same]
    · rw [noted]
      rfl
  rw [tag, sealing_page, if_pos (List.mem_range.mp inside)]
  exact (h.raw i).sealTag

/-- The hash is the digest of the addresses and the tags. -/
theorem Built.hash_of_tags {k l : Nat} {a b : Block} (ha : Built k a) (hb : Built l b)
    (addr : b.addr = a.addr) (tags : ∀ i < a.npages, (b.page i).tag = (a.page i).tag) :
    b.sealNow.2.hash = a.sealNow.2.hash := by
  have npages : b.npages = a.npages := Control.npages_congr addr
  have same : ∀ i ∈ List.range a.npages, (b.page i).tag = (a.page i).tag :=
    fun i inside => tags i (List.mem_range.mp inside)
  have inputs : b.sealing.refreshAll.sealInputs = a.sealing.refreshAll.sealInputs := by
    rw [ha.fresh.sealInputs, hb.fresh.sealInputs, addr, npages, List.map_congr_left same]
  rw [Block.sealNow_eq ha.fresh.unsealed, Block.sealNow_eq hb.fresh.unsealed, inputs]

/-- Two blocks that hold the same bytes and hide the same pages seal to one hash, whatever
calls and writes led there. -/
theorem Built.sealNow_hash {k l : Nat} {a b : Block} (ha : Built k a) (hb : Built l b)
    (addr : b.addr = a.addr) (hidden : ∀ i < a.npages, b.hidden i = a.hidden i)
    (bytes : ∀ i < a.npages, b.image i = a.image i) :
    a.sealNow.1 = .ok () ∧ b.sealNow.1 = .ok () ∧ b.sealNow.2.hash = a.sealNow.2.hash := by
  refine ⟨?_, ?_, ha.hash_of_tags hb addr fun i inside => ?_⟩
  · rw [Block.sealNow_eq ha.fresh.unsealed]
  · rw [Block.sealNow_eq hb.fresh.unsealed]
  · have flag : (b.page i).invisible = (a.page i).invisible := hidden i inside
    have mem : (b.page i).mem = (a.page i).mem := bytes i inside
    rw [Page.tag, Page.tag, flag, mem]

/-- A page written, freed, mapped again and written, beside one written once. -/
def Block.twiceWritten : Block :=
  ((new (pagesAt 0 1) 0).get new_onePage).setUp
    [.activate, .op (.mmapFixed (pagesAt 0 1) .rw false false), .op (.write 0 (.fill 3)),
      .op (.munmap (pagesAt 0 1)), .op (.mmapFixed (pagesAt 0 1) .rwx false false),
      .op (.write 0 (.fill 7))]

theorem Built.sealNow_hash_twiceWritten :
    Block.twiceWritten.sealNow.2.hash = Block.onePage.sealNow.2.hash := by
  have built : Built 0 Block.twiceWritten := setUp (.new (Option.some_get _).symm) _
  refine (sealNow_hash Block.onePage_built built rfl (fun i inside => ?_)
    (fun i inside => ?_)).2.2
  · obtain rfl : i = 0 := Nat.lt_one_iff.mp inside
    decide +kernel
  · obtain rfl : i = 0 := Nat.lt_one_iff.mp inside
    have twice : Block.twiceWritten.image 0 = .fill 7 := rfl
    exact twice

/-! ## States of another machine with the same hash -/

/-- A page with the flag it was sealed with that is dirty only against a baseline it has. -/
structure Page.Backed (invisible : Bool) (p : Page) : Prop where
  flag : p.invisible = invisible
  snap : p.invisible = false → p.snap = .none → p.dirty = false

section Backed

variable {invisible : Bool} {p q : Page}

section

variable (h : p.Backed invisible)
include h

theorem Page.Backed.congr (flag : q.invisible = p.invisible) (snap : q.snap = p.snap)
    (dirty : q.dirty = p.dirty) : q.Backed invisible := by
  refine ⟨flag.trans h.flag, ?_⟩
  rw [flag, snap, dirty]
  exact h.snap

/-- A page with a snapshot may be dirty or not. -/
theorem Page.Backed.of_present (flag : q.invisible = p.invisible) (present : q.snap ≠ .none) :
    q.Backed invisible :=
  ⟨flag.trans h.flag, fun _ none => absurd none present⟩

theorem Page.Backed.refreshed (swappedIn : Bool) : (p.refreshed swappedIn).Backed invisible := by
  cases swappedIn with
  | false => exact h
  | true => exact h.congr rfl rfl rfl

theorem Page.Backed.restatus (epochActive : Bool) (status : UInt8) :
    (p.restatus epochActive status).Backed invisible := by
  refine h.congr ?_ ?_ ?_ <;> simp [Page.restatus]

theorem Page.Backed.freed (planActive epochActive : Bool) :
    (p.freed planActive epochActive).Backed invisible := by
  obtain ⟨flag, snap, -, -⟩ := p.freed_fields planActive epochActive
  refine h.of_present flag ?_
  rw [snap]
  exact maybeSnapshot_snap ⟨p, {}⟩

end

theorem Page.Backed.change {c : Control} (change : p.Change c q) (h : p.Backed invisible) :
    q.Backed invisible := by
  cases change with
  | called called =>
    cases called with
    | protect status => exact (h.restatus _ _).refreshed _
    | keep _ => exact (h.freed _ _).refreshed _
    | drop _ => exact ((h.freed _ _).restatus _ _).refreshed _
  | release _ _ =>
    refine h.of_present (by simp [released, tripPage]) ?_
    have present := maybeSnapshot_snap ⟨p, {}⟩
    simpa [released, tripPage] using present
  | write bytes _ => exact h.congr rfl rfl rfl
  | plan slot =>
    unfold planned
    split_ifs
    · refine Backed.refreshed ?_ _
      exact h.congr rfl rfl rfl
    · exact h.congr rfl rfl rfl
  | take wait i =>
    rw [planTake_page]
    exact h.congr rfl rfl rfl
  | note => exact h.refreshed _

/-- Closing an epoch changes no flag, no snapshot and no dirtiness. -/
theorem Page.Saved.backed (saved : p.Saved q) (h : p.Backed invisible) : q.Backed invisible := by
  have looked : p.looked.Backed invisible := by
    refine h.congr ?_ ?_ ?_ <;>
      (unfold looked; rw [getHotEpochPage_page]; split_ifs <;> simp)
  cases saved with
  | left => exact h
  | warmed heat seen => exact looked.congr rfl rfl rfl
  | heated heat seen _ => exact looked.congr rfl rfl rfl

theorem Page.Backed.reload {good : PageBytes → Prop} {i : Nat} {x y : Track}
    (reload : Reload good i x y) (h : x.page.Backed invisible) : y.page.Backed invisible := by
  cases reload with
  | snapshot => exact h.of_present (by simp) (maybeSnapshot_snap x)
  | store bytes present => exact h.of_present (by simp [setMem]) (by simpa [setMem] using present)
  | rewrite bytes _ => exact h.congr rfl rfl rfl
  | revert is =>
    refine ⟨?_, fun _ _ => ?_⟩
    · simpa [setMem] using h.flag
    · simp [setMem]
  | back _ _ present => exact h.of_present (by simp [setMem]) (by simpa [setMem] using present)
  | again => exact h.congr (by simp) (by simp) (by simp)
  | shadow =>
    unfold shadowRewritten
    split_ifs
    · exact h.congr rfl rfl rfl
    · exact h
  | restatus status => exact h.congr (by simp) (by simp) (by simp)

end Backed

/-- A machine that was sealed from `x`, whatever happened to it since. -/
structure Block.Heir (x b : Block) : Prop where
  is_sealed : b.isSealed = true
  addr : b.addr = x.addr
  hash : b.hash = x.sealNow.2.hash
  length : b.hash.length = 32
  recorded : b.Recorded

theorem Built.heir {k : Nat} {x : Block} (h : Built k x) :
    x.Heir x.sealNow.2 ∧ ∀ i, (x.sealNow.2.page i).Backed (x.hidden i) := by
  obtain ⟨sound, -, -, -, -, addr⟩ := h.fresh.sealed
  refine ⟨⟨sound.is_sealed, addr, rfl, sound.hash, sound.recorded⟩, fun i => ?_⟩
  have kept := sound.kept i
  exact ⟨kept.flag, fun visible => kept.snap (kept.flag.symm.trans visible)⟩

section Heir

variable {x b : Block} {inv : Nat → Bool}

theorem Block.Heir.event (h : x.Heir b) (e : Event) : x.Heir (e.run b) := by
  have same := e.same b
  refine ⟨same.is_sealed.trans h.is_sealed, same.addr.trans h.addr, same.hash.trans h.hash, ?_,
    e.recorded h.recorded⟩
  rw [same.hash]
  exact h.length

theorem Event.backed (h : ∀ i, (b.page i).Backed (inv i)) (e : Event) :
    ∀ i, ((e.run b).page i).Backed (inv i) :=
  Event.keeps e.declares_any (P := fun i p => p.Backed (inv i))
    (fun i p q change backed => backed.change change)
    (fun i bytes _ _ backed => backed.congr rfl rfl rfl)
    (fun i p backed => by
      obtain ⟨held, unheldBit, is⟩ := p.opened_eq b.swappedIn
      rw [is]
      exact backed.congr rfl rfl rfl)
    (fun i q saved backed => saved.backed backed)
    (fun i p backed => backed.congr rfl rfl rfl)
    (fun i x y reload backed => backed.reload reload)
    h

theorem Block.Heir.activate (h : x.Heir b) : x.Heir b.activate := by
  obtain ⟨addr, -, is_sealed, hash, -⟩ := b.activate_same
  refine ⟨is_sealed.trans h.is_sealed, addr.trans h.addr, hash.trans h.hash, ?_,
    h.recorded.activate⟩
  rw [hash]
  exact h.length

theorem Block.activate_backed (h : ∀ i, (b.page i).Backed (inv i)) (i : Nat) :
    (b.activate.page i).Backed (inv i) := by
  rcases b.activate_page i with same | ⟨-, noted⟩
  · rw [same]
    exact h i
  · rw [noted]
    exact (h i).congr rfl rfl rfl

theorem Block.Heir.mremapMaymove (h : x.Heir b) (addr : Range) (newSize : UInt64) (arena : Range)
    (maymove : Bool) : x.Heir (b.mremapMaymove addr newSize arena maymove).2 := by
  have steps := mremapMaymove_steps h.recorded addr newSize arena maymove
  have control := HostSteps.toControl steps
  have recorded := HostSteps.recorded steps h.recorded
  obtain ⟨is_sealed, addr, hash, length, -⟩ := h
  constructor <;> first | rw [control]; assumption | assumption

/-- A call that moves nothing. -/
theorem Block.mremapMaymove_backed (recorded : b.Recorded) (h : ∀ i, (b.page i).Backed (inv i))
    {addr arena : Range} {newSize : UInt64} {maymove : Bool}
    (still : (b.relocation addr newSize arena maymove).isNone = true) :
    ∀ i, ((b.mremapMaymove addr newSize arena maymove).2.page i).Backed (inv i) := by
  rcases mremapMaymove_cases recorded addr newSize arena maymove with ⟨-, steps⟩ | ⟨r, is, -⟩
  · exact steps.keeps (P := fun i p => p.Backed (inv i))
      (fun _ _ _ _ called backed => backed.change (.called called)) h
  · rw [is] at still
    cases still

end Heir

/-- The machine sealed as `o` after any events, mappings that move among them; `still` while none
has moved. -/
inductive Roamed (o : Block) : Bool → Block → Prop where
  | sealed : Roamed o true o
  | activate {still : Bool} {b : Block} : Roamed o still b → Roamed o still b.activate
  | event {still : Bool} {b : Block} (e : Event) : Roamed o still b → Roamed o still (e.run b)
  | mremapMaymove {still : Bool} {b : Block} (addr : Range) (newSize : UInt64) (arena : Range)
      (maymove : Bool) : Roamed o still b →
      Roamed o (still && (b.relocation addr newSize arena maymove).isNone)
        (b.mremapMaymove addr newSize arena maymove).2

theorem Roamed.heir {k : Nat} {still : Bool} {x b : Block} (built : Built k x)
    (h : Roamed x.sealNow.2 still b) :
    x.Heir b ∧ (still = true → ∀ i, (b.page i).Backed (x.hidden i)) := by
  induction h with
  | sealed => exact ⟨built.heir.1, fun _ => built.heir.2⟩
  | activate _ ih => exact ⟨ih.1.activate, fun still => Block.activate_backed (ih.2 still)⟩
  | event e _ ih => exact ⟨ih.1.event e, fun still => e.backed (ih.2 still)⟩
  | mremapMaymove addr newSize arena maymove _ ih =>
    refine ⟨ih.1.mremapMaymove addr newSize arena maymove, fun still => ?_⟩
    obtain ⟨before, now⟩ := (Bool.and_eq_true _ _).mp still
    exact Block.mremapMaymove_backed ih.1.recorded (ih.2 before) now

/-- Where no mapping moved, a machine can take up the states of another that hides the same. -/
theorem Block.Heir.accepts {x y s t : Block} (hs : x.Heir s) (ht : y.Heir t)
    (backedS : ∀ i, (s.page i).Backed (x.hidden i)) (backedT : ∀ i, (t.page i).Backed (y.hidden i))
    (addr : y.addr = x.addr) (hidden : ∀ i < x.npages, y.hidden i = x.hidden i) :
    s.Accepts t := by
  have npages : s.npages = x.npages := Control.npages_congr hs.addr
  refine ⟨ht.addr.trans (addr.trans hs.addr.symm), fun i inside => ?_, ?_⟩
  · rw [(backedT i).flag, (backedS i).flag]
    exact hidden i (npages ▸ inside)
  · intro i _ visible dirty none
    rw [(backedT i).snap visible none] at dirty
    cases dirty

/-- A state of one machine, taken up by another of the same hash. -/
theorem Block.Heir.loadState {x y s t : Block} (hs : x.Heir s) (ht : y.Heir t)
    (accepts : s.Accepts t) (hash : y.sealNow.2.hash = x.sealNow.2.hash) :
    ∃ stream c, s.saveState = .ok stream ∧ t.loadState stream = (.ok [], c) ∧
      ∀ i < x.npages, (t.page i).Restored (s.page i) (c.page i) := by
  have npages : s.npages = x.npages := Control.npages_congr hs.addr
  obtain ⟨c, loaded, -, restored⟩ := @loadState_saved s t [] accepts hs.recorded ht.recorded
    ht.is_sealed hs.length (ht.hash.trans (hash.trans hs.hash.symm))
  rw [List.append_nil] at loaded
  exact ⟨_, c, saveState_eq hs.is_sealed, loaded, fun i inside => restored i (npages ▸ inside)⟩

/-- Whatever a machine of the same hash saved is accepted, and what the pages then show is
what they showed there exactly if the pages the state leaves out, clean ones, were sealed
alike.  A mapping may have moved if the two still hide the same pages and what is dirty where the
state is loaded has a baseline. -/
theorem Roamed.interchange {k l : Nat} {x y s t : Block} {stillS stillT : Bool} (hx : Built k x)
    (hy : Built l y) (addr : y.addr = x.addr) (hidden : ∀ i < x.npages, y.hidden i = x.hidden i)
    (hash : y.sealNow.2.hash = x.sealNow.2.hash) (hs : Roamed x.sealNow.2 stillS s)
    (ht : Roamed y.sealNow.2 stillT t)
    (still : stillS = true ∧ stillT = true ∨ s.Accepts t) :
    ∃ stream c, s.saveState = .ok stream ∧ t.loadState stream = (.ok [], c) ∧
      ((∀ i < x.npages, (s.page i).invisible = false →
          (c.page i).status = (s.page i).status ∧ (c.page i).mem = (s.page i).mem) ↔
        ∀ i < x.npages, (s.page i).invisible = false → (s.page i).dirty = false →
          (t.page i).sealed = (s.page i).mem) := by
  obtain ⟨heirS, backedS⟩ := hs.heir hx
  obtain ⟨heirT, backedT⟩ := ht.heir hy
  have npages : s.npages = x.npages := Control.npages_congr heirS.addr
  have accepts : s.Accepts t := still.elim
    (fun both => heirS.accepts heirT (backedS both.1) (backedT both.2) addr hidden) id
  obtain ⟨stream, c, saved, loaded, restored⟩ := heirS.loadState heirT accepts hash
  have visible : ∀ i < x.npages, (s.page i).invisible = false → (t.page i).invisible = false :=
    fun i inside shown => (accepts.flags i (npages ▸ inside)).trans shown
  refine ⟨stream, c, saved, loaded, ?_, ?_⟩
  · intro same i inside shown clean
    have mem := (restored i inside).mem (visible i inside shown)
    rw [clean, if_neg (by decide), (same i inside shown).2] at mem
    exact mem.symm
  · intro sealed i inside shown
    refine ⟨(restored i inside).status, ?_⟩
    have mem := (restored i inside).mem (visible i inside shown)
    cases dirty : (s.page i).dirty with
    | true =>
      rw [dirty, if_pos rfl] at mem
      exact mem
    | false =>
      rw [dirty, if_neg (by decide), sealed i inside shown dirty] at mem
      exact mem

/-- A machine of one page that differs from `Block.onePage` in the bytes it was sealed with. -/
def Block.otherPage : Block :=
  ((new (pagesAt 0 1) 0).get new_onePage).setUp
    [.activate, .op (.mmapFixed (pagesAt 0 1) .rw false false), .op (.write 0 (.fill 9))]

theorem Block.otherPage_built : Built 0 otherPage := Built.setUp (.new (Option.some_get _).symm) _

theorem Block.otherPage_hash : otherPage.sealNow.2.hash = onePage.sealNow.2.hash := by
  refine onePage_built.hash_of_tags otherPage_built rfl fun i inside => ?_
  obtain rfl : i = 0 := Nat.lt_one_iff.mp inside
  have one : (onePage.page 0).mem = .fill 7 := rfl
  have other : (otherPage.page 0).mem = .fill 9 := rfl
  have seven : PageBytes.fill 7 ≠ .zero := fun zero => absurd (PageBytes.fill_inj zero) (by decide)
  have nine : PageBytes.fill 9 ≠ .zero := fun zero => absurd (PageBytes.fill_inj zero) (by decide)
  have shown : (onePage.page 0).invisible = false := by decide +kernel
  have shown' : (otherPage.page 0).invisible = false := by decide +kernel
  rw [Page.tag, Page.tag, one, other, shown, shown', if_pos ⟨rfl, nine⟩, if_pos ⟨rfl, seven⟩]

/-- A machine of four pages, two of them mapped. -/
def Block.fourPages : Block :=
  ((new (pagesAt 0 4) 0).get rfl).setUp
    [.activate, .op (.mmapFixed (pagesAt 0 2) .rw false false), .op (.write 0 (.fill 7))]

/-- Its first page moved to the third, and grown to the fourth. -/
def Block.fourMoved : Block :=
  (fourPages.sealNow.2.mremapMaymove (pagesAt 0 1) 0x2000 (pagesAt 0 4) true).2

/-- The state with the page moved, taken up by the machine as it was sealed. -/
theorem Roamed.interchange_moved : ∃ stream c, Block.fourMoved.saveState = .ok stream ∧
    Block.fourPages.sealNow.2.loadState stream = (.ok [], c) ∧ (c.page 2).mem = .fill 7 := by
  have built : Built 0 Block.fourPages := Built.setUp (.new (Option.some_get _).symm) _
  have flags : ∀ i < 4, (Block.fourPages.sealNow.2.page i).invisible =
      (Block.fourMoved.page i).invisible := by decide +kernel
  have clean : ∀ i < 4, (Block.fourPages.sealNow.2.page i).dirty = false := by decide +kernel
  have accepts : Block.fourMoved.Accepts Block.fourPages.sealNow.2 := by
    refine ⟨rfl, flags, fun i inside _ dirty => ?_⟩
    rw [clean i inside] at dirty
    cases dirty
  obtain ⟨stream, c, saved, loaded, same⟩ :=
    interchange built built rfl (fun _ _ => rfl) rfl (.mremapMaymove _ _ _ _ .sealed) .sealed
      (.inr accepts)
  -- the page that stayed is all the state leaves out
  have only : ∀ i < 4, (Block.fourMoved.page i).dirty = false → i = 1 := by decide +kernel
  have stayed : (Block.fourPages.sealNow.2.page 1).sealed = (Block.fourMoved.page 1).mem := rfl
  refine ⟨stream, c, saved, loaded, (same.mpr (fun i inside _ clean => ?_) 2 (by decide +kernel)
    (by decide +kernel)).2⟩
  obtain rfl := only i inside clean
  exact stayed

/-- The state of the sealed machine, taken up by the other: accepted, and the page keeps the
bytes the other machine was sealed with. -/
theorem Roamed.interchange_fails : Block.otherPage.sealNow.2.hash = Block.onePage.sealNow.2.hash ∧
    ∃ stream c, Block.onePage.sealNow.2.saveState = .ok stream ∧
      Block.otherPage.sealNow.2.loadState stream = (.ok [], c) ∧
      Block.onePage.hidden 0 = false ∧
      (c.page 0).mem ≠ (Block.onePage.sealNow.2.page 0).mem := by
  obtain ⟨stream, c, saved, loaded, restored⟩ :=
    Block.onePage_built.heir.1.loadState Block.otherPage_built.heir.1
      (Block.onePage_built.heir.1.accepts Block.otherPage_built.heir.1 Block.onePage_built.heir.2
        Block.otherPage_built.heir.2 rfl fun i inside => by
          obtain rfl : i = 0 := Nat.lt_one_iff.mp inside
          decide +kernel)
      Block.otherPage_hash
  refine ⟨Block.otherPage_hash, stream, c, saved, loaded, by decide +kernel, fun same => ?_⟩
  have mem := (restored 0 Nat.one_pos).mem (by decide +kernel)
  have clean : (Block.onePage.sealNow.2.page 0).dirty = false := by decide +kernel
  rw [clean, if_neg (by decide)] at mem
  have nine : (Block.otherPage.sealNow.2.page 0).sealed = .fill 9 := rfl
  have seven : (Block.onePage.sealNow.2.page 0).mem = .fill 7 := rfl
  rw [mem, nine, seven] at same
  exact absurd (PageBytes.fill_inj same) (by decide)

end MiniBox
