import MiniBox.Block.Machine

/-!
# Saving at one moment and loading at another

`Reached` are the states a sealed machine can come to.  Two of them share their invisible
pages and their sealed bytes, so the pages a savestate leaves out are the same in both, and
a state saved in one restores it in the other.

That rests on the deltas: one that declares a page clean without the bytes it was sealed
with makes a machine whose own savestate does not carry what it shows.  The machine's own
deltas never do so.
-/

namespace MiniBox

open Lib

/-- The machine sealed as `o`, after any events that are `allowed`. -/
inductive Reached (allowed : Event → Prop) (o : Block) : Block → Prop where
  | sealed : Reached allowed o o
  | activate {b : Block} : Reached allowed o b → Reached allowed o b.activate
  | event {b : Block} {e : Event} : Reached allowed o b → allowed e → Reached allowed o (e.run b)

section Roundtrip

variable {inv : Nat → Bool} {base : Nat → PageBytes} {o b s c : Block}

theorem Reached.of (start : o.Of inv base o)
    (h : Reached (Event.Declares (SealedWith inv base)) o b) : b.Of inv base o := by
  induction h with
  | sealed => exact start
  | activate _ ih => exact ih.activate
  | event _ declares ih => exact ih.event declares

/-- A delta the machine saves declares clean only what was sealed. -/
theorem Block.Sound.deltaSave_declares (h : b.Sound inv base) {delta : Bytes}
    (saved : b.deltaSave true = (.ok delta, c)) :
    Event.Declares (SealedWith inv base) (.deltaApply delta) := by
  have active : b.epochActive = true := by
    cases active : b.epochActive with
    | true => rfl
    | false =>
      rw [deltaSave, active] at saved
      cases saved
  rw [deltaSave_encode h.recorded active] at saved
  cases saved
  have read := deltaData_encode b.getHotEpoch.delta b.getHotEpoch.fitsPages []
  rw [List.append_nil] at read
  show Declares _ (deltaData b.getHotEpoch.delta.encode)
  rw [read]
  exact delta_declares h.hotEpoch_kept

/-! ## The bytes of a second save -/

theorem Block.dirtyBytes_get (b : Block) {i : Nat} (hi : i < b.npages) :
    b.dirtyBytes[i]? = some (if (b.page i).dirtyMap then 1 else 0) := by
  unfold dirtyBytes
  rw [List.getElem?_map, List.getElem?_range hi]
  rfl

/-- Two machines that look alike save the same bytes, but for the dirty flags of invisible
pages. -/
theorem Block.Of.saveState_same (hs : s.Of inv base o) (hc : c.Of inv base o)
    (view : AgreeOn o.npages inv c.view s.view)
    (status : ∀ i, i < o.npages → (c.page i).status = (s.page i).status) :
    ∃ before after, s.saveState = .ok (before ++ s.dirtyBytes ++ after) ∧
      c.saveState = .ok (before ++ c.dirtyBytes ++ after) ∧
      ∀ i < o.npages, inv i = false → c.dirtyBytes[i]? = s.dirtyBytes[i]? := by
  have npagesS := hs.npages
  have npagesC := hc.npages
  have statuses : c.statusBytes = s.statusBytes := by
    unfold statusBytes
    rw [npagesS, npagesC]
    refine List.map_congr_left fun i inside => ?_
    rw [(hc.sound.recorded.consistent i).status, (hs.sound.recorded.consistent i).status,
      status i (List.mem_range.mp inside)]
  have data : c.savedFrom 0 = s.savedFrom 0 := by
    unfold savedFrom
    rw [npagesS, npagesC, List.flatMap_congr]
    intro i inside
    rw [(hc.sound.kept i).flag, (hs.sound.kept i).flag]
    cases visible : inv i with
    | true => rfl
    | false =>
      have same := view i (by simpa using inside) visible
      have dirty : (c.page i).dirty = (s.page i).dirty := congrArg PageView.dirty same
      have mem : (c.page i).mem = (s.page i).mem := congrArg PageView.mem same
      rw [dirty, mem]
  refine ⟨stateMagic ++ s.hash ++ s.addr.bytes ++ s.statusBytes, s.savedFrom 0, ?_, ?_, ?_⟩
  · rw [saveState_eq hs.sound.is_sealed]
    rfl
  · rw [saveState_eq hc.sound.is_sealed, data, stateHeader, statuses, hc.hash, hc.addr, hs.hash,
      hs.addr]
  · intro i hi visible
    rw [dirtyBytes_get c (npagesC ▸ hi), dirtyBytes_get s (npagesS ▸ hi),
      (hc.sound.recorded.consistent i).dirty, (hs.sound.recorded.consistent i).dirty]
    have same : (c.page i).dirty = (s.page i).dirty := congrArg PageView.dirty (view i hi visible)
    rw [same]

end Roundtrip

/-- A state saved at `s` restores it at `t`, whatever led there, and a second save writes it
again.  The deltas applied on the way declare clean only what was sealed, as the machine's
own do. -/
theorem Reached.roundtrip {x s t : Block} (built : Built 0 x)
    (hs : Reached (Event.Declares (SealedWith x.hidden x.image)) x.sealNow.2 s)
    (ht : Reached (Event.Declares (SealedWith x.hidden x.image)) x.sealNow.2 t) (rest : Bytes) :
    (∃ stream c, s.saveState = .ok stream ∧ t.loadState (stream ++ rest) = (.ok rest, c) ∧
      (∀ i < x.npages, x.hidden i = false → c.view i = s.view i) ∧
      ∃ before after, stream = before ++ s.dirtyBytes ++ after ∧
        c.saveState = .ok (before ++ c.dirtyBytes ++ after) ∧
        ∀ i < x.npages, x.hidden i = false → c.dirtyBytes[i]? = s.dirtyBytes[i]?) ∧
    ∀ delta c, s.deltaSave true = (.ok delta, c) →
      Event.Declares (SealedWith x.hidden x.image) (.deltaApply delta) := by
  have ofS := hs.of built.of
  have npages : x.sealNow.2.npages = x.npages := Control.npages_congr built.fresh.sealed.2.2.2.2.2
  obtain ⟨stream, c, saved, loaded, ofC, view, status⟩ := ofS.loadState (ht.of built.of) rest
  obtain ⟨before, after, first, second, flags⟩ := ofS.saveState_same ofC view status
  rw [npages] at view flags
  rw [saved] at first
  cases first
  exact ⟨⟨_, c, saved, loaded, view, before, after, rfl, second, flags⟩,
    fun delta c saved => ofS.sound.deltaSave_declares saved⟩

/-- The page written after the seal, put back where it was not. -/
theorem Reached.roundtrip_onePage : ∃ stream c,
    (Op.run Block.onePage.sealNow.2 (.write 0 (.fill 1))).saveState = .ok stream ∧
    Block.onePage.sealNow.2.loadState (stream ++ []) = (.ok [], c) ∧
    (∀ i < Block.onePage.npages, Block.onePage.hidden i = false →
      c.view i = (Op.run Block.onePage.sealNow.2 (.write 0 (.fill 1))).view i) := by
  obtain ⟨⟨stream, c, saved, loaded, view, -⟩, -⟩ :=
    roundtrip Block.onePage_built
      (.event (e := .op (.write 0 (.fill 1))) .sealed trivial) .sealed []
  exact ⟨stream, c, saved, loaded, view⟩

/-- Whatever happens to a sealed machine, and whatever it loads, its invisible pages are those of
the seal, a visible page that is not as it was sealed is dirty, and its baseline is what was
sealed. -/
theorem Reached.stays_true {x b : Block} (built : Built 0 x)
    (run : Reached (Event.Declares (SealedWith x.hidden x.image)) x.sealNow.2 b) (i : Nat) :
    (b.page i).invisible = x.hidden i ∧
    (x.hidden i = false → (b.page i).mem ≠ x.image i → (b.page i).dirty = true) ∧
    (x.hidden i = false → ∀ bytes, (b.page i).baseline = some bytes → bytes = x.image i) := by
  have kept := (run.of built.of).sound.kept i
  refine ⟨kept.flag, fun visible differs => ?_, kept.baseline⟩
  by_contra clean
  exact differs (kept.clean visible (Bool.eq_false_of_not_eq_true clean))

/-- The page written after the seal is dirty, and its baseline is what was sealed. -/
theorem Reached.stays_true_onePage :
    let b := Op.run Block.onePage.sealNow.2 (.write 0 (.fill 1))
    (b.page 0).mem = .fill 1 ∧ (b.page 0).dirty = true ∧ (b.page 0).baseline = some (.fill 7) := by
  obtain ⟨-, dirty, baseline⟩ := stays_true Block.onePage_built
    (.event (e := .op (.write 0 (.fill 1))) .sealed trivial) 0
  have shown : Block.onePage.hidden 0 = false := by decide +kernel
  have written : ((Op.run Block.onePage.sealNow.2 (.write 0 (.fill 1))).page 0).mem = .fill 1 := rfl
  have some_ : ((Op.run Block.onePage.sealNow.2 (.write 0 (.fill 1))).page 0).baseline.isSome =
      true := by decide +kernel
  obtain ⟨bytes, is⟩ := Option.isSome_iff_exists.mp some_
  refine ⟨written, dirty shown fun same => ?_, is.trans (congrArg some (baseline shown bytes is))⟩
  exact absurd (PageBytes.fill_inj (written.symm.trans same)) (by decide)

/-! ## A delta of another machine -/

/-- A delta that declares the one page clean and zero. -/
def Delta.zeroed : Delta 1 where
  status := []
  data := [⟨deltaIdxClean, .zero⟩]
  statusAscends := StatusEntry.ascending_nil
  dataAscends := by simp [Ascending]
  statusInside := by simp
  dataInside := by simp [DataEntry.page, deltaPage]
  dataWord := by simp [deltaIdxClean]

/-- Applied to a page sealed with sevens, it leaves a zero page that no savestate
carries. -/
theorem Reached.roundtrip_fails : Reached (fun _ => True) Block.onePage.sealNow.2
      (Block.onePage.sealNow.2.deltaApply Delta.zeroed.encode).2 ∧
    ∃ stream c, (Block.onePage.sealNow.2.deltaApply Delta.zeroed.encode).2.saveState = .ok stream ∧
      Block.onePage.sealNow.2.loadState stream = (.ok [], c) ∧ Block.onePage.hidden 0 = false ∧
      c.view 0 ≠ (Block.onePage.sealNow.2.deltaApply Delta.zeroed.encode).2.view 0 := by
  have of := Block.onePage_built.of
  have applied := Block.deltaApply_encode (n := 1) of.sound.is_sealed rfl Delta.zeroed []
  rw [List.append_nil] at applied
  have recorded := Event.recorded of.sound.recorded (.deltaApply Delta.zeroed.encode)
  have same := Event.same Block.onePage.sealNow.2 (.deltaApply Delta.zeroed.encode)
  refine ⟨.event (e := .deltaApply Delta.zeroed.encode) .sealed trivial, ?_⟩
  simp only [Event.run, applied] at recorded same
  rw [applied]
  have accepts : Block.Accepts (Block.onePage.sealNow.2.applied Delta.zeroed)
      Block.onePage.sealNow.2 := by
    refine ⟨same.addr.symm, fun i inside => ?_, fun i inside _ dirty => ?_⟩ <;>
      obtain rfl : i = 0 := Nat.lt_one_iff.mp (inside.trans_eq same.npages)
    · decide +kernel
    · exact absurd dirty (by decide +kernel)
  obtain ⟨c, loaded, -, restored⟩ := @Block.loadState_saved _ _ [] accepts recorded
    of.sound.recorded of.sound.is_sealed (same.hash ▸ of.sound.hash) same.hash.symm
  rw [List.append_nil] at loaded
  refine ⟨_, c, Block.saveState_eq (same.is_sealed.trans of.sound.is_sealed), loaded, rfl, ?_⟩
  have mem := (restored 0 (Nat.one_pos.trans_eq same.npages.symm)).mem rfl
  have kept : (c.page 0).mem = .fill 7 := mem
  intro view
  have zero : PageBytes.fill 7 = .zero := kept.symm.trans (congrArg PageView.mem view)
  exact absurd (PageBytes.fill_inj zero) (by decide)

end MiniBox
