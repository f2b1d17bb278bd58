import MiniBox.Block.History

/-!
# Composition is one application after the other

The later entry of a page hides the earlier one and the baseline is taken once, so the merge of
two deltas does what the two do in turn, on every page of every block.
-/

namespace MiniBox

open Lib

/-! ## Pages as a delta sees them -/

/-- Of two writes to one page the later stays, and the baseline of the first. -/
theorem PageState.write_write (d e : DataEntry) (s : PageState) :
    (s.write d).write e = s.write e := by
  unfold write
  cases s.snap <;> simp

theorem PageState.write_status (e : DataEntry) (s : PageState) (status : UInt8) :
    ({ s with status } : PageState).write e = { s.write e with status } := rfl

/-- The merge of two deltas does what the two do in turn. -/
theorem Delta.onState_merge {n : Nat} (c d : Delta n) (i : Nat) (s : PageState) :
    (c.merge d).onState i s = d.onState i (c.onState i s) := by
  have status : lookup StatusEntry.idx i (c.merge d).status = _ :=
    lookup_mergeLater c.statusAscends d.statusAscends i
  have data : lookup DataEntry.page i (c.merge d).data = _ :=
    lookup_mergeLater c.dataAscends d.dataAscends i
  unfold onState
  rw [status, data]
  cases lookup StatusEntry.idx i c.status <;> cases lookup StatusEntry.idx i d.status <;>
    cases lookup DataEntry.page i c.data <;> cases lookup DataEntry.page i d.data <;>
    simp only [Option.some_or, Option.none_or, PageState.write_write, PageState.write_status]

/-! ## The composer -/

theorem Delta.encode_merge_assoc {n : Nat} (a b c : Delta n) :
    ((a.merge b).merge c).encode = (a.merge (b.merge c)).encode := by
  have status : ((a.merge b).merge c).status = (a.merge (b.merge c)).status :=
    mergeLater_assoc a.statusAscends b.statusAscends c.statusAscends
  have data : ((a.merge b).merge c).data = (a.merge (b.merge c)).data :=
    mergeLater_assoc a.dataAscends b.dataAscends c.dataAscends
  rw [encode, encode, parts, parts, status, data]

theorem deltaCompose_merge {n : Nat} (a b : Delta n) (fits : fitsPages n) :
    deltaCompose a.encode b.encode = .ok ((a.merge b).encode, [], []) := by
  have composed := deltaCompose_encode a b fits [] []
  rw [List.append_nil, List.append_nil] at composed
  exact composed

theorem Block.deltaApply_delta {b : Block} (is_sealed : b.isSealed = true) {n : Nat}
    (pages : b.npages = n) (d : Delta n) : b.deltaApply d.encode = (.ok [], b.applied d) := by
  have applied := deltaApply_encode is_sealed pages d []
  rw [List.append_nil] at applied
  exact applied

/-- Composing succeeds, gives a delta again, and applying it is applying the two in turn;
composing is associative.  `good` is what a page may be declared clean with. -/
theorem Delta.compose_applies {good : Nat → PageBytes → Prop} {n : Nat} {a b : Delta n}
    (ha : Declares good a.data) (hb : Declares good b.data) {block : Block}
    (is_sealed : block.isSealed = true) (pages : block.npages = n) :
    (∃ d : Delta n, deltaCompose a.encode b.encode = .ok (d.encode, [], []) ∧ Declares good d.data ∧
      ∃ x y z, block.deltaApply d.encode = (.ok [], x) ∧ block.deltaApply a.encode = (.ok [], y) ∧
        y.deltaApply b.encode = (.ok [], z) ∧ ∀ i, (x.page i).status = (z.page i).status ∧
          (x.page i).dirty = (z.page i).dirty ∧ (x.page i).mem = (z.page i).mem ∧
          (x.page i).snap = (z.page i).snap) ∧
    ∀ c : Delta n, ∃ ab bc abc, deltaCompose a.encode b.encode = .ok (ab, [], []) ∧
      deltaCompose b.encode c.encode = .ok (bc, [], []) ∧
      deltaCompose ab c.encode = .ok (abc, [], []) ∧
      deltaCompose a.encode bc = .ok (abc, [], []) := by
  have fits : fitsPages n := pages ▸ block.fitsPages
  have first := Block.deltaApply_delta is_sealed pages a
  have same := Event.same block (.deltaApply a.encode)
  simp only [Event.run, first] at same
  have second := Block.deltaApply_delta (same.is_sealed.trans is_sealed)
    (same.npages.trans pages) b
  refine ⟨⟨a.merge b, deltaCompose_merge a b fits, merge_declares ha hb, _, _, _,
    Block.deltaApply_delta is_sealed pages _, first, second, fun i => ?_⟩, fun c => ?_⟩
  · have states : ((block.applied (a.merge b)).page i).state =
        (((block.applied a).applied b).page i).state := by
      rw [Block.applied_state, Block.applied_state, Block.applied_state, onState_merge]
    exact ⟨congrArg PageState.status states, congrArg PageState.dirty states,
      congrArg PageState.mem states, congrArg PageState.snap states⟩
  · refine ⟨_, _, _, deltaCompose_merge a b fits, deltaCompose_merge b c fits,
      deltaCompose_merge _ c fits, ?_⟩
    rw [deltaCompose_merge a _ fits, encode_merge_assoc]

/-- A delta that writes the one page. -/
def Delta.writes (bytes : PageBytes) : Delta 1 where
  status := [⟨0, stRWX⟩]
  data := [⟨0, bytes⟩]
  statusAscends := by simp [Ascending]
  dataAscends := by simp [Ascending]
  statusInside := by simp
  dataInside := by simp [DataEntry.page, deltaPage]
  dataWord := by simp

theorem Delta.writes_declares (good : Nat → PageBytes → Prop) (bytes : PageBytes) :
    Declares good (writes bytes).data := by
  intro e listed clean
  obtain rfl := List.mem_singleton.mp listed
  exact absurd clean (by simp [DataEntry.clean, deltaIdxClean])

theorem Delta.compose_applies_onePage : ∃ composed x y z,
    deltaCompose (writes (.fill 1)).encode (writes (.fill 2)).encode =
      .ok (composed, [], []) ∧
    Block.onePage.sealNow.2.deltaApply composed = (.ok [], x) ∧
    Block.onePage.sealNow.2.deltaApply (writes (.fill 1)).encode = (.ok [], y) ∧
    y.deltaApply (writes (.fill 2)).encode = (.ok [], z) ∧
    ∀ i, (x.page i).mem = (z.page i).mem ∧ (x.page i).snap = (z.page i).snap := by
  have honest := writes_declares fun _ _ => False
  obtain ⟨⟨d, composed, -, x, y, z, hx, hy, hz, same⟩, -⟩ :=
    compose_applies (honest (.fill 1)) (honest (.fill 2))
      Block.onePage_built.of.sound.is_sealed (rfl : Block.onePage.sealNow.2.npages = 1)
  exact ⟨_, x, y, z, composed, hx, hy, hz, fun i => ⟨(same i).2.2.1, (same i).2.2.2⟩⟩

end MiniBox
