import MiniBox.Block.Runs

/-!
# The fault handler

`trip` serves a write fault: every page of the faulting host page that is still
held is released with the page written, its baseline, epoch and planned copies
taken first, and the host page is mapped writable.  It refuses when the page is
not tracked, when a baseline copy cannot be had (`room`) and when the OS refuses
the protection (`protectOk`).

A guest write is modelled by the contents it leaves its page with.  It goes
ahead if the host page is mapped writable, and otherwise if the fault is served.
The guest writes only pages its own mapping lets it write.
-/

namespace MiniBox

open Lib

/-- `group_page_held`: a tracked page that is the one written, or that is not
to be writable. -/
def Page.heldBy (written : Bool) (p : Page) : Bool :=
  statusTracked p.status && (written || !p.nativeProt.writable)

/-- The page's half of a served fault. -/
def tripPage (planActive epochActive : Bool) (i : Nat) (x : Track) : Track :=
  setDirty true (planCapture planActive i (epochCapture epochActive x))

/-- The first page of the host page `i` is in. -/
def Control.groupFirst (b : Control) (i : Nat) : Nat := b.hostPage i * b.groupPages

/-- How many pages of the block the host page of `i` holds. -/
def Control.groupCount (b : Control) (i : Nat) : Nat :=
  min b.groupPages (b.npages - b.groupFirst i)

/-- `trip` on a write to page `i`: whether it was served, and the block after. -/
def Block.trip (room : Nat → Bool) (protectOk : Bool) (b : Block) (i : Nat) : Bool × Block :=
  if !b.swappedIn || decide (b.npages ≤ i) || !statusTracked (b.page i).status then (false, b)
  else
    let first := b.groupFirst i
    let count := b.groupCount i
    let held (q : Nat) (p : Page) := p.heldBy (q == i)
    let served := firstFrom
      (fun q => !held q (b.page q) || (b.page q).snap != .none || room q) count first
    let b := b.onPages first (served - first) fun q x =>
      if held q x.page then maybeSnapshot x else x
    if served < first + count then (false, b)
    else
      let released (q : Nat) := held q (b.page q)
      let b := b.onPages first count fun q x =>
        if held q x.page then tripPage b.planActive b.epochActive q x else x
      if !protectOk then (false, b)
      else
        let b := b.protect (b.hostPage i) (b.groupNativeProt (b.hostPage i))
        (true, b.onPages first count fun q x => if released q then noteUnheld x else x)

/-- Page `i` holds `bytes` from here on. -/
def Block.poke (b : Block) (i : Nat) (bytes : PageBytes) : Block :=
  b.onPage i fun x => { x with page := { x.page with mem := bytes } }

/-- A guest write that leaves page `i` holding `bytes`. -/
def Block.guestWrite (b : Block) (i : Nat) (bytes : PageBytes) : Block :=
  if b.npages ≤ i ∨ statusTracked (b.page i).status = false then b
  else if (b.os (b.hostPage i)).writable then b.poke i bytes
  else
    match b.trip (fun _ => true) true i with
    | (true, b) => b.poke i bytes
    | (false, b) => b

/-! ## What a served fault does -/

/-- A page released by the handler. -/
def Page.released (planActive epochActive : Bool) (p : Page) : Page :=
  (noteUnheld (tripPage planActive epochActive 0 (maybeSnapshot ⟨p, {}⟩))).page

theorem Control.mem_group {b : Control} {i j : Nat} (hi : i < b.npages) :
    b.groupFirst i ≤ j ∧ j < b.groupFirst i + b.groupCount i ↔
      b.hostPage j = b.hostPage i ∧ j < b.npages := by
  have pos := b.groupPages_pos
  have low : b.groupFirst i ≤ i := Nat.div_mul_le_self _ _
  unfold groupCount groupFirst at *
  have host := b.mem_hostPage (g := b.hostPage i) (k := j)
  rw [List.mem_range'_1] at host
  omega

theorem Page.heldBy_maybeSnapshot (written : Bool) (x : Track) :
    (maybeSnapshot x).page.heldBy written = x.page.heldBy written := by
  have same : (maybeSnapshot x).page.nativeProt = x.page.nativeProt := by
    rw [maybeSnapshot_page]
    rfl
  unfold heldBy
  rw [same, maybeSnapshot_page]

/-- The pages of the group after the baseline copies. -/
theorem Block.tripSnapshots_page (b : Block) (first count i j : Nat) :
    (b.onPages first count fun q x =>
        if x.page.heldBy (q == i) then maybeSnapshot x else x).page j =
      if (first ≤ j ∧ j < first + count) ∧ (b.page j).heldBy (j == i) = true then
        (maybeSnapshot ⟨b.page j, {}⟩).page
      else b.page j := by
  rw [b.onPages_page (g := fun q p =>
    if p.heldBy (q == i) then (maybeSnapshot ⟨p, {}⟩).page else p)]
  · split_ifs <;> first | rfl | tauto
  · intro q x
    split_ifs <;> simp

/-- The pages of the group after they were released. -/
theorem Block.tripPages_page (b : Block) (planActive epochActive : Bool) (first count i j : Nat) :
    (b.onPages first count fun q x =>
        if x.page.heldBy (q == i) then tripPage planActive epochActive q x else x).page j =
      if (first ≤ j ∧ j < first + count) ∧ (b.page j).heldBy (j == i) = true then
        (tripPage planActive epochActive 0 ⟨b.page j, {}⟩).page
      else b.page j := by
  rw [b.onPages_page (g := fun q p =>
    if p.heldBy (q == i) then (tripPage planActive epochActive 0 ⟨p, {}⟩).page else p)]
  · split_ifs <;> first | rfl | tauto
  · intro q x
    split_ifs <;> simp [tripPage]

/-- The pages of the group after the released ones were noted. -/
theorem Block.tripNotes_page (b : Block) (released : Nat → Bool) (first count j : Nat) :
    (b.onPages first count fun q x => if released q then noteUnheld x else x).page j =
      if (first ≤ j ∧ j < first + count) ∧ released j = true then
        { b.page j with unheldBit := (b.page j).unheldBit || !(b.page j).hot }
      else b.page j := by
  rw [b.onPages_page (g := fun q p =>
    if released q then { p with unheldBit := p.unheldBit || !p.hot } else p)]
  · split_ifs <;> first | rfl | tauto
  · intro q x
    split_ifs <;> rfl

/-- A fault on a tracked page is served when copies and protections are granted.
The held pages of its host page are released, nothing else changes, and the host
page has the protection of its group. -/
theorem Block.trip_served {b : Block} {i : Nat} (swapped : b.swappedIn = true)
    (hi : i < b.npages) (tracked : statusTracked (b.page i).status = true) :
    ∃ c, b.trip (fun _ => true) true i = (true, c) ∧ c.toControl = b.toControl ∧ (∀ j, c.page j =
        if (b.hostPage j = b.hostPage i ∧ j < b.npages) ∧ (b.page j).heldBy (j == i) = true then
          (b.page j).released b.planActive b.epochActive
        else b.page j) ∧
      ∀ g, c.os g = if g = b.hostPage i then c.groupNativeProt g else b.os g := by
  have all : firstFrom (fun q => !(b.page q).heldBy (q == i) || (b.page q).snap != .none || true)
      (b.groupCount i) (b.groupFirst i) = b.groupFirst i + b.groupCount i :=
    firstFrom_all (fun _ => by simp) _ _
  unfold trip
  rw [if_neg (by simp [swapped, tracked, hi])]
  simp only [all, Nat.add_sub_cancel_left, Nat.lt_irrefl, if_false, Bool.not_true,
    Bool.false_eq_true]
  set b1 := b.onPages (b.groupFirst i) (b.groupCount i) fun q x =>
    if x.page.heldBy (q == i) = true then maybeSnapshot x else x with hb1
  set b2 := b1.onPages (b.groupFirst i) (b.groupCount i) fun q x =>
    if x.page.heldBy (q == i) = true then tripPage b1.planActive b1.epochActive q x else x with hb2
  have control1 : b1.toControl = b.toControl := by simp [hb1]
  have control2 : b2.toControl = b.toControl := by simp [hb2, control1]
  have page1 := b.tripSnapshots_page (b.groupFirst i) (b.groupCount i) i
  rw [← hb1] at page1
  have page2 := b1.tripPages_page b1.planActive b1.epochActive (b.groupFirst i) (b.groupCount i) i
  rw [← hb2] at page2
  have page3 := (b2.protect (b2.hostPage i) (b2.groupNativeProt (b2.hostPage i))).tripNotes_page
    (fun q => (b1.page q).heldBy (q == i)) (b.groupFirst i) (b.groupCount i)
  refine ⟨_, rfl, by simp [protect, control2], fun j => ?_, fun g => ?_⟩
  · rw [page3]
    simp only [protect, page2, page1, Control.mem_group hi,
      apply_ite (Page.heldBy (j == i)), Page.heldBy_maybeSnapshot, ite_self]
    by_cases released : (b.hostPage j = b.hostPage i ∧ j < b.npages) ∧
        (b.page j).heldBy (j == i) = true
    · simp only [if_pos released]
      simp [Page.released, tripPage, control1]
    · simp only [if_neg released]
  · have same : ((b2.protect (b2.hostPage i) (b2.groupNativeProt (b2.hostPage i))).onPages
        (b.groupFirst i) (b.groupCount i) fun q x =>
          if (b1.page q).heldBy (q == i) then noteUnheld x else x).groupNativeProt g =
        b2.groupNativeProt g := by
      refine groupNativeProt_congr (by simp [protect]) (fun k => ?_) g
      rw [page3]
      split_ifs <;> exact ⟨rfl, rfl⟩
    rw [same]
    simp only [onPages_os, protect, control2]
    by_cases here : g = b.hostPage i
    · subst here
      simp
    · rw [Function.update_of_ne here, if_neg here]
      simp [hb2, hb1]

/-- The handler takes every page it serves out of the way of the write. -/
theorem Page.released_nativeProt {planActive epochActive : Bool} {p : Page}
    (tracked : statusTracked p.status = true)
    (owed : p.planHold = .free ∨ planActive = true) :
    (p.released planActive epochActive).nativeProt.writable = true := by
  rw [nativeProt_writable]
  simp only [released, tripPage, noteUnheld_page, setDirty_page, planCapture_page,
    epochCapture_page, maybeSnapshot_page, opens]
  rcases owed with free | active
  · simp [tracked, free]
  · simp [tracked, active]

theorem Block.poke_page (b : Block) (i : Nat) (bytes : PageBytes) (j : Nat) :
    (b.poke i bytes).page j =
      if j = i then { b.page j with mem := bytes } else b.page j := by
  unfold poke
  rw [onPage_page]
  split_ifs with h
  · rw [h]
  · rfl

theorem Block.poke_groupNativeProt (b : Block) (i : Nat) (bytes : PageBytes) (g : Nat) :
    (b.poke i bytes).groupNativeProt g = b.groupNativeProt g := by
  refine groupNativeProt_congr (b := b) (c := b.poke i bytes) rfl (fun k => ?_) g
  rw [poke_page]
  split_ifs <;> exact ⟨rfl, rfl⟩

/-- What a guest write does: nothing, a write to a page mapped writable, or a
served fault and then the write. -/
theorem Block.guestWrite_cases (b : Block) (i : Nat) (bytes : PageBytes) :
    b.guestWrite i bytes = b ∨
      i < b.npages ∧ statusTracked (b.page i).status = true ∧
        ((b.os (b.hostPage i)).writable = true ∧ b.guestWrite i bytes = b.poke i bytes ∨
          b.swappedIn = true ∧
            ∃ c, b.trip (fun _ => true) true i = (true, c) ∧ b.guestWrite i bytes =
            c.poke i bytes) := by
  unfold guestWrite
  split_ifs with refused writable
  · exact .inl rfl
  · refine .inr ⟨by omega, by simpa using fun h => refused (.inr h), .inl ⟨writable, rfl⟩⟩
  · have hi : i < b.npages := by omega
    have tracked : statusTracked (b.page i).status = true := by
      simpa using fun h => refused (.inr h)
    cases swapped : b.swappedIn with
    | false =>
      refine .inl ?_
      simp [trip, swapped]
    | true =>
      obtain ⟨c, served, -⟩ := trip_served swapped hi tracked
      refine .inr ⟨hi, tracked, .inr ⟨rfl, c, served, ?_⟩⟩
      rw [served]

/-- A guest write changes protections in step. -/
theorem Block.guestWrite_inStep {L : Page → Page → Prop}
    (same : ∀ p bytes, L p { p with mem := bytes }) (b : Block) (i : Nat) (bytes : PageBytes) :
    b.InStep L (b.guestWrite i bytes) := by
  have refl : ∀ p, L p p := fun p => same p p.mem
  rcases b.guestWrite_cases i bytes with
    nothing | ⟨hi, tracked, ⟨-, poked⟩ | ⟨swapped, c, served, poked⟩⟩
  · rw [nothing]
    exact InStep.refl refl b
  · rw [poked]
    refine ⟨rfl, rfl, rfl, fun j hj => ?_, fun g => .inr ⟨rfl, fun _ k _ _ => ?_⟩⟩
    · rw [poke_page, if_neg (by omega)]
    · rw [poke_page]
      split_ifs
      · exact same _ _
      · exact refl _
  · obtain ⟨d, again, control, page, os⟩ := trip_served swapped hi tracked
    rw [served] at again
    cases again
    rw [poked]
    refine ⟨congrArg Control.addr control, congrArg Control.groupShift control,
      congrArg Control.swappedIn control, fun j hj => ?_, fun g => ?_⟩
    · rw [poke_page, if_neg (by omega), page, if_neg (by omega)]
    rw [poke_groupNativeProt, show (c.poke i bytes).os g = c.os g from rfl, os]
    split_ifs with here
    · exact .inl ⟨swapped, rfl⟩
    · refine .inr ⟨rfl, fun _ k _ host => ?_⟩
      have other : k ≠ i := by
        rintro rfl
        exact here host.symm
      rw [poke_page, if_neg other, page, if_neg fun h => here (host ▸ h.1.1)]
      exact refl _

end MiniBox
