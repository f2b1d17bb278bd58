import MiniBox.Block.Changes

/-!
# The operations of a frame

`Op` is what may happen to a block between the start and the end of an epoch: guest
writes, the memory calls that keep a mapping in place, and the steps of a planned
state.  Whatever the operation, a page goes through a sequence of the changes
`Page.Change` lists, the protections stay in step, and the records stay in agreement.
Later invariants are proved against `Page.Change` and never look at an operation again.
-/

namespace MiniBox

open Lib

variable {b c : Block} {P : Nat → Page → Prop}

inductive Op where
  | write (i : Nat) (bytes : PageBytes)
  | mmap (addr : Range) (prot : Prot) (arena : Range) (noReplace zeroOverlap : Bool)
  | mmapFixed (addr : Range) (prot : Prot) (noReplace zeroOverlap : Bool)
  | munmap (addr : Range)
  | madviseDontneed (addr : Range)
  | mprotect (addr : Range) (prot : Prot)
  | mremap (addr : Range) (newSize : UInt64)
  | statePlan (dest : Option (Nat → PageBytes)) (capacity : Nat)
  | planFill (first past : Nat)
  | planFinish

def Op.run (b : Block) : Op → Block
  | .write i bytes => b.guestWrite i bytes
  | .mmap addr prot arena noReplace zeroOverlap =>
    (b.mmap addr prot arena noReplace zeroOverlap).2
  | .mmapFixed addr prot noReplace zeroOverlap => (b.mmapFixed addr prot noReplace zeroOverlap).2
  | .munmap addr => (b.munmap addr).2
  | .madviseDontneed addr => (b.madviseDontneed addr).2
  | .mprotect addr prot => (b.mprotect addr prot).2
  | .mremap addr newSize => (b.mremap addr newSize).2
  | .statePlan dest capacity => (b.statePlan dest capacity).2
  | .planFill first past => (b.planFill first past).2
  | .planFinish => b.planFinish.2

/-- What one step of an operation does to a page. -/
inductive Page.Change (c : Control) (p : Page) : Page → Prop where
  | called {q : Page} : p.Called c q → Change c p q
  | release : c.swappedIn = true → statusTracked p.status = true →
      Change c p (p.released c.planActive c.epochActive)
  | write (bytes : PageBytes) : p.opens = true → Change c p { p with mem := bytes }
  | plan (slot : Nat) : Change c p (p.planned slot c.swappedIn)
  | take (wait : Bool) (i : Nat) : Change c p (planTake wait i ⟨p, {}⟩).page
  | note : Change c p (p.refreshed c.swappedIn)

abbrev Page.Changes (c : Control) : Page → Page → Prop := Relation.ReflTransGen (Change c)

/-- Every operation is a memory call, a guest write or a step of a planned state. -/
theorem Op.cases (b : Block) (op : Op) :
    MemSteps b (op.run b) ∨ (∃ i bytes, op.run b = b.guestWrite i bytes) ∨
      (∃ dest capacity, op.run b = (b.statePlan dest capacity).2) ∨
      (∃ first past, op.run b = (b.planFill first past).2) ∨ op.run b = b.planFinish.2 := by
  cases op with
  | write i bytes => exact .inr (.inl ⟨i, bytes, rfl⟩)
  | mmap addr prot arena noReplace zeroOverlap => exact .inl (b.mmap_steps _ _ _ _ _)
  | mmapFixed addr prot noReplace zeroOverlap => exact .inl (b.mmapFixed_steps _ _ _ _)
  | munmap addr => exact .inl (b.munmapImpl_steps addr false)
  | madviseDontneed addr => exact .inl (b.munmapImpl_steps addr true)
  | mprotect addr prot => exact .inl (b.mprotect_steps addr prot)
  | mremap addr newSize => exact .inl (b.mremap_steps addr newSize)
  | statePlan dest capacity => exact .inr (.inr (.inl ⟨dest, capacity, rfl⟩))
  | planFill first past => exact .inr (.inr (.inr (.inl ⟨first, past, rfl⟩)))
  | planFinish => exact .inr (.inr (.inr (.inr rfl)))

/-! ## Records and protections -/

theorem Op.recorded (h : b.Recorded) (op : Op) : (op.run b).Recorded := by
  rcases op.cases b with steps | ⟨i, bytes, is⟩ | ⟨dest, capacity, is⟩ | ⟨first, past, is⟩ | is
  · exact MemSteps.recorded steps h
  · rw [is]
    exact h.guestWrite i bytes
  · rw [is]
    exact h.statePlan dest capacity
  · rw [is]
    exact h.planFill first past
  · rw [is]
    exact h.planFinish

theorem MemSteps.inSteps (steps : MemSteps b c) : Block.InSteps Page.Looser b c := by
  induction steps with
  | refl => exact .refl
  | tail _ last ih => exact ih.tail (last.inStep Page.Looser.refl)

theorem Op.inSteps (h : b.Recorded) (op : Op) : Block.InSteps Page.Looser b (op.run b) := by
  rcases op.cases b with steps | ⟨i, bytes, is⟩ | ⟨dest, capacity, is⟩ | ⟨first, past, is⟩ | is
  · exact MemSteps.inSteps steps
  · rw [is]
    exact .single (b.guestWrite_inStep (fun p bytes => .of_same rfl rfl rfl rfl rfl) i bytes)
  · rw [is]
    exact b.statePlan_inSteps dest capacity
  · rw [is]
    exact Block.planFill_inSteps h first past
  · rw [is]
    exact Block.planFinish_inSteps h

/-! ## Pages -/

theorem MemSteps.changes (steps : MemSteps b c) (i : Nat) :
    Page.Changes b.toControl (b.page i) (c.page i) :=
  steps.keeps (P := fun i p => Page.Changes b.toControl (b.page i) p)
    (fun _ _ _ _ called changes => changes.tail (.called called)) (fun _ => .refl) i

/-- The page is tracked and its host page mapped writable: the guest writes it and nothing
hears of it. -/
structure Block.Unheard (b : Block) (i : Nat) : Prop where
  inside : i < b.npages
  writable : (b.os (b.hostPage i)).writable = true
  tracked : statusTracked (b.page i).status = true

/-- On a block whose protections are tight such a page is open. -/
theorem Block.Tight.write {b : Block} (tight : b.Tight) {i : Nat} (h : b.Unheard i)
    (bytes : PageBytes) : (b.page i).Change b.toControl { b.page i with mem := bytes } := by
  have wanted := tight i h.inside h.writable h.tracked
  rw [Page.nativeProt_writable, Bool.and_eq_true] at wanted
  exact .write bytes wanted.1

/-- A guest write is served by the handler, or goes ahead unheard. -/
theorem Block.guestWrite_page (b : Block) (i : Nat) (bytes : PageBytes) (j : Nat) :
    Page.Changes b.toControl (b.page j) ((b.guestWrite i bytes).page j) ∨
      j = i ∧ b.Unheard j ∧ (b.guestWrite i bytes).page j = { b.page j with mem := bytes } := by
  rcases b.guestWrite_cases i bytes with
    nothing | ⟨hi, tracked, ⟨writable, poked⟩ | ⟨swapped, c, served, poked⟩⟩
  · rw [nothing]
    exact .inl .refl
  · rw [poked, poke_page]
    split_ifs with here
    · subst here
      exact .inr ⟨rfl, ⟨hi, writable, tracked⟩, rfl⟩
    · exact .inl .refl
  · refine .inl ?_
    obtain ⟨d, again, -, page, -⟩ := trip_served swapped hi tracked
    rw [served] at again
    cases again
    rw [poked, poke_page, page]
    by_cases here : j = i
    · subst here
      have held : (b.page j).heldBy (j == j) = true := by simp [Page.heldBy, tracked]
      rw [if_pos rfl, if_pos ⟨⟨rfl, hi⟩, held⟩]
      refine .tail (.single (.release swapped tracked)) (.write bytes ?_)
      simp [Page.opens, Page.released, tripPage, tracked]
    · rw [if_neg here]
      split_ifs with released
      · have tracked' : statusTracked (b.page j).status = true := by
          have held := released.2
          simp only [Page.heldBy, Bool.and_eq_true] at held
          exact held.1
        exact .single (.release swapped tracked')
      · exact .refl

theorem Block.statePlan_page (b : Block) (dest : Option (Nat → PageBytes)) (capacity j : Nat) :
    (b.statePlan dest capacity).2.page j = b.page j ∨
      ∃ slot, (b.statePlan dest capacity).2.page j = (b.page j).planned slot b.swappedIn := by
  rcases b.statePlan_cases dest capacity with refused | ⟨room, -, -, -, -, accepted⟩
  · rw [refused]
    exact .inl rfl
  rw [accepted]
  have loop := Pending.loop_page (fun entry : Nat × Nat => entry.1)
    (b := { b with
      plan := some { head := b.stateHeader, room, list := b.statePages }
      shared := { b.shared with copies := [] } })
    (f := Pending.planTurn) (R := fun entry p q => q = p.planned entry.2 b.swappedIn)
    (fun s entry below swapped => by
      have turn := Pending.planTurn_turn below
      rw [swapped] at turn
      exact turn)
    b.statePages_ascending
  by_cases member : ∃ entry ∈ b.statePages.zipIdx, entry.1 = j
  · obtain ⟨entry, member, rfl⟩ := member
    exact .inr ⟨entry.2, loop.1 entry member⟩
  · exact .inl (loop.2 j fun entry member' is => member ⟨entry, member', is⟩)

theorem Block.statePlan_changes (b : Block) (dest : Option (Nat → PageBytes)) (capacity : Nat)
    (j : Nat) : Page.Changes b.toControl (b.page j) ((b.statePlan dest capacity).2.page j) := by
  rcases b.statePlan_page dest capacity j with same | ⟨slot, planned⟩
  · rw [same]
  · rw [planned]
    exact .single (.plan slot)

theorem Block.takes_changes (b : Block) (wait : Bool) (list : List Nat) (j : Nat) :
    Page.Changes b.toControl (b.page j)
      ((list.foldl (fun (b : Block) i => b.onPage i (planTake wait i)) b).page j) := by
  rw [takes_page]
  split_ifs
  · exact .single (.take wait j)
  · exact .refl

theorem Block.planFinish_changes (b : Block) (j : Nat) :
    Page.Changes b.toControl (b.page j) (b.planFinish.2.page j) := by
  cases is : b.plan with
  | none =>
    have same : b.planFinish.2 = b := by
      unfold planFinish
      rw [is]
    rw [same]
  | some plan =>
    rw [planFinish_page is]
    split_ifs
    · exact .tail (.single (.take true j)) .note
    · exact .refl

theorem Op.page (b : Block) (op : Op) (j : Nat) :
    Page.Changes b.toControl (b.page j) ((op.run b).page j) ∨
      b.Unheard j ∧ ∃ bytes, op = .write j bytes ∧
        (op.run b).page j = { b.page j with mem := bytes } := by
  cases op with
  | write i bytes =>
    rcases b.guestWrite_page i bytes j with served | ⟨rfl, unheard, page⟩
    · exact .inl served
    · exact .inr ⟨unheard, bytes, rfl, page⟩
  | mmap addr prot arena noReplace zeroOverlap =>
    exact .inl (MemSteps.changes (b.mmap_steps _ _ _ _ _) j)
  | mmapFixed addr prot noReplace zeroOverlap =>
    exact .inl (MemSteps.changes (b.mmapFixed_steps _ _ _ _) j)
  | munmap addr => exact .inl (MemSteps.changes (b.munmapImpl_steps addr false) j)
  | madviseDontneed addr => exact .inl (MemSteps.changes (b.munmapImpl_steps addr true) j)
  | mprotect addr prot => exact .inl (MemSteps.changes (b.mprotect_steps addr prot) j)
  | mremap addr newSize => exact .inl (MemSteps.changes (b.mremap_steps addr newSize) j)
  | statePlan dest capacity => exact .inl (b.statePlan_changes dest capacity j)
  | planFill first past =>
    left
    show Page.Changes _ _ ((b.planFill first past).2.page j)
    cases plan : b.plan with
    | none => rw [Block.planFill_none plan]
    | some plan' =>
      rw [Block.planFill_eq plan]
      exact b.takes_changes false _ j
  | planFinish => exact .inl (b.planFinish_changes j)

theorem Page.Changes.keeps {c : Control} {p q : Page} (h : Changes c p q) {P : Page → Prop}
    (step : ∀ p q, Change c p q → P p → P q) (initial : P p) : P q := by
  induction h with
  | refl => exact initial
  | tail _ last ih => exact step _ _ last ih

/-- What the changes and the writes that go unheard keep of a page, an operation keeps of
all pages. -/
theorem Op.keeps_all (op : Op) (step : ∀ i p q, Page.Change b.toControl p q → P i p → P i q)
    (write : ∀ i bytes, op = .write i bytes → b.Unheard i → P i (b.page i) →
      P i { b.page i with mem := bytes }) (initial : ∀ i, P i (b.page i)) (i : Nat) :
    P i ((op.run b).page i) := by
  rcases op.page b i with changes | ⟨unheard, bytes, is, page⟩
  · exact changes.keeps (step i) (initial i)
  · rw [page]
    exact write i bytes is unheard (initial i)

/-- On a block whose protections are tight, no write goes unheard that is not a change. -/
theorem Op.keeps (tight : b.Tight) (op : Op)
    (step : ∀ i p q, Page.Change b.toControl p q → P i p → P i q) (initial : ∀ i, P i (b.page i))
    (i : Nat) : P i ((op.run b).page i) :=
  op.keeps_all step (fun i bytes _ unheard => step i _ _ (tight.write unheard bytes)) initial i

end MiniBox
