import MiniBox.Block.Frame
import MiniBox.Block.Seal

/-!
# One machine on a 4 KiB host

`b.Of inv base o` says that `b` is the machine that was sealed as `o`, some time
later: sound, exactly mapped, with the addresses and the hash of `o`.  Whatever happens to
it, it stays that machine, and a state saved at one moment can be loaded at any other.
-/

namespace MiniBox

open Lib

structure Block.Of (inv : Nat → Bool) (base : Nat → PageBytes) (b o : Block) : Prop where
  sound : b.Sound inv base
  single : b.groupShift = 0
  exact_ : b.Exact
  addr : b.addr = o.addr
  hash : b.hash = o.hash

/-- The pages invisible and the bytes present when `a` is sealed. -/
def Block.hidden (a : Block) (i : Nat) : Bool := (a.page i).invisible

def Block.image (a : Block) (i : Nat) : PageBytes := (a.page i).mem

theorem Built.of {a : Block} (h : Built 0 a) : a.sealNow.2.Of a.hidden a.image a.sealNow.2 := by
  obtain ⟨sound, -, exact_, shift, -, -⟩ := h.fresh.sealed
  exact ⟨sound, shift, exact_ rfl, rfl, rfl⟩

section Of

variable {inv : Nat → Bool} {base : Nat → PageBytes} {o b : Block}

theorem Block.Of.tight (h : b.Of inv base o) : b.Tight := h.exact_.tight h.single

theorem Block.Of.npages (h : b.Of inv base o) : b.npages = o.npages :=
  Control.npages_congr h.addr

theorem Block.Of.event (h : b.Of inv base o) {e : Event}
    (declares : e.Declares (SealedWith inv base)) : (e.run b).Of inv base o := by
  have same := e.same b
  refine ⟨h.sound.event h.tight declares, same.shift.trans h.single, ?_, same.addr.trans h.addr,
    same.hash.trans h.hash⟩
  exact InSteps.exact
    (e.inSteps h.sound.recorded h.sound.settled) h.sound.unmapped h.single h.exact_

theorem Block.Of.activate (h : b.Of inv base o) : b.activate.Of inv base o := by
  obtain ⟨addr, shift, -, hash, -⟩ := b.activate_same
  exact ⟨h.sound.activate, shift.trans h.single,
    (activate_guarded h.sound.unmapped).2.2 h.single h.exact_, addr.trans h.addr,
    hash.trans h.hash⟩

theorem Block.activate_view (b : Block) (i : Nat) : b.activate.view i = b.view i := by
  unfold view
  rcases b.activate_page i with same | ⟨-, noted⟩
  · rw [same]
  · rw [noted]
    rfl

theorem Block.Of.runOps (h : b.Of inv base o) (ops : List Op) : (b.runOps ops).Of inv base o := by
  induction ops generalizing b with
  | nil => exact h
  | cons op rest ih => exact ih (h.event (e := .op op) trivial)

/-! ## Loading a saved state -/

/-- A state saved by the machine at one moment, loaded at another. -/
theorem Block.Of.loadState {s t : Block} (hs : s.Of inv base o) (ht : t.Of inv base o)
    (rest : Bytes) :
    ∃ stream c, s.saveState = .ok stream ∧ t.loadState (stream ++ rest) = (.ok rest, c) ∧
      c.Of inv base o ∧ AgreeOn o.npages inv c.view s.view ∧
      ∀ i, i < o.npages → (c.page i).status = (s.page i).status := by
  have npages := hs.npages
  have accepts : s.Accepts t := by
    refine ⟨ht.addr.trans hs.addr.symm, fun i _ => ?_, fun i _ visible dirty => ?_⟩
    · rw [(ht.sound.kept i).flag, (hs.sound.kept i).flag]
    · exact (ht.sound.kept i).present dirty ((ht.sound.kept i).flag.symm.trans visible)
  obtain ⟨c, loaded, -, restored⟩ := @loadState_saved s t rest accepts hs.sound.recorded
    ht.sound.recorded ht.sound.is_sealed hs.sound.hash (ht.hash.trans hs.hash.symm)
  refine ⟨_, c, saveState_eq hs.sound.is_sealed, loaded, ?_, fun i hi visible => ?_, fun i hi => ?_⟩
  · have after := ht.event (e := .loadState (s.stateHeader ++ s.savedFrom 0 ++ rest)) trivial
    have is : Event.run t (.loadState (s.stateHeader ++ s.savedFrom 0 ++ rest)) = c :=
      congrArg Prod.snd loaded
    rw [is] at after
    exact after
  · have page := restored i (by omega)
    have keptS := hs.sound.kept i
    have keptT := ht.sound.kept i
    rw [visible] at keptS keptT
    refine page.view keptT.flag fun clean => ?_
    rw [keptT.sealed, keptS.clean rfl clean]
  · exact (restored i (by omega)).status

/-- A delta of the machine, applied. -/
theorem Block.Of.deltaApply (h : b.Of inv base o) (d : Delta o.npages)
    (declares : Declares (SealedWith inv base) d.data) (rest : Bytes) :
    ∃ c, b.deltaApply (d.encode ++ rest) = (.ok rest, c) ∧ c.Of inv base o ∧
      AgreeOn o.npages inv c.view (d.effect b.view) := by
  have applied := deltaApply_encode h.sound.is_sealed h.npages d rest
  have fits : fitsPages o.npages := o.fitsPages
  have honest : Event.Declares (SealedWith inv base) (.deltaApply (d.encode ++ rest)) := by
    show MiniBox.Declares _ (deltaData (d.encode ++ rest))
    rw [deltaData_encode d fits]
    exact declares
  have after := h.event honest
  have is : Event.run b (.deltaApply (d.encode ++ rest)) = b.applied d := congrArg Prod.snd applied
  rw [is] at after
  exact ⟨b.applied d, applied, after, fun i _ visible =>
    b.applied_view d ((h.sound.kept i).flag.trans visible)⟩

/-- A frame of the machine. -/
theorem Block.Of.frame (h : b.Of inv base o) (watched : b.Watched) (ops : List Op) :
    ∃ d : Delta o.npages, ((b.epochBegin.2.runOps ops).deltaSave true).1 = .ok d.encode ∧
      Declares (SealedWith inv base) d.data ∧
      ((b.epochBegin.2.runOps ops).deltaSave true).2.Of inv base o ∧
      AgreeOn o.npages inv (d.effect b.view)
        ((b.epochBegin.2.runOps ops).deltaSave true).2.view := by
  have opened := h.event (e := .epochBegin) trivial
  have ran := Of.runOps opened ops
  have frame := (h.sound.epochBegin h.tight watched).ops ops
  obtain ⟨d, saved, effect, declares, -, -⟩ := frame.deltaSave
  have npages : (b.epochBegin.2.runOps ops).npages = o.npages := ran.npages
  rw [← npages]
  exact ⟨d, saved, declares, ran.event (e := .deltaSave true) trivial, effect⟩

end Of

/-! ## The smallest machine -/

theorem Block.new_onePage : (new (pagesAt 0 1) 0).isSome = true := rfl

/-- A block of one page, mapped and written before the seal. -/
def Block.onePage : Block :=
  ((new (pagesAt 0 1) 0).get new_onePage).setUp
    [.activate, .op (.mmapFixed (pagesAt 0 1) .rw false false), .op (.write 0 (.fill 7))]

theorem Block.onePage_built : Built 0 onePage :=
  Built.setUp (.new (Option.some_get _).symm) _

end MiniBox
