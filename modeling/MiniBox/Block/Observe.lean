import MiniBox.Block.Machine
import MiniBox.Block.Placement

/-!
# Watching a block

The host looks at a machine with epochs, deltas, savestates and planned states.  Each of
them protects pages, lets them go, copies them and keeps books about them, and the guest's
writes then fault where they did not.  None of it shows: what the guest reads, which of its
accesses are allowed and what its calls answer is decided by the `Core` of each page, which
the host's looking leaves alone.

Two blocks are `Alike` when their pages have the same cores.  Every action of a guest has
one outcome on blocks that are alike and leaves them alike; every look of the host leaves a
block alike to what it was.  A run that is watched and the same run unwatched then go on in
step.  All of this is on a host whose pages are the machine's.
-/

namespace MiniBox

open Lib

/-! ## What of a page the guest can come to see -/

@[ext]
structure Core where
  status : UInt8
  invisible : Bool
  mem : PageBytes
  dirty : Bool
  /-- the baseline is zero -/
  zeroed : Bool

def Page.core (p : Page) : Core := ⟨p.status, p.invisible, p.mem, p.dirty, p.snap == .zero⟩

/-- A page zeroed by `free_pages`. -/
def Core.freed (c : Core) : Core :=
  { c with
    mem := if !c.dirty && !c.invisible && c.zeroed then c.mem else .zero
    dirty := !c.invisible && !c.zeroed }

theorem maybeSnapshot_zeroed (x : Track) :
    ((maybeSnapshot x).page.snap == .zero) = (x.page.snap == .zero) := by
  rw [maybeSnapshot_page]
  cases x.page.snap <;> rfl

namespace Page

@[simp] theorem refreshed_core (swappedIn : Bool) (p : Page) :
    (p.refreshed swappedIn).core = p.core := by
  cases swappedIn <;> rfl

@[simp] theorem restatus_core (epochActive : Bool) (status : UInt8) (p : Page) :
    (p.restatus epochActive status).core = { p.core with status } := by
  simp [restatus, core]

@[simp] theorem freed_core (planActive epochActive : Bool) (p : Page) :
    (p.freed planActive epochActive).core = p.core.freed := by
  have zeroed := maybeSnapshot_zeroed ⟨p, {}⟩
  rw [maybeSnapshot_page] at zeroed
  simp only [freed, freePage, core, Core.freed, setDirty_page, zeroPage_page,
    epochNoteStatusChange_page, maybeSnapshot_page, planCapture_page, bne, zeroed]
  rfl

@[simp] theorem released_core (planActive epochActive : Bool) (p : Page) :
    (p.released planActive epochActive).core = { p.core with dirty := true } := by
  have zeroed := maybeSnapshot_zeroed ⟨p, {}⟩
  rw [maybeSnapshot_page] at zeroed
  simp [released, tripPage, core, zeroed]

@[simp] theorem overwritten_core (planActive invisible : Bool) (bytes : PageBytes) (p : Page) :
    (p.overwritten planActive invisible bytes).core =
      { p.core with invisible, mem := bytes, dirty := true } := by
  simp [overwritten, overwritePage, core]

@[simp] theorem opened_core (swappedIn : Bool) (p : Page) : (p.opened swappedIn).core = p.core := by
  obtain ⟨held, unheldBit, is⟩ := opened_eq swappedIn p
  rw [is]
  rfl

@[simp] theorem planned_core (slot : Nat) (swappedIn : Bool) (p : Page) :
    (p.planned slot swappedIn).core = p.core := by
  unfold planned
  split_ifs
  · rw [refreshed_core]
    rfl
  · rfl

theorem Saved.core {p q : Page} (h : p.Saved q) : q.core = p.core := by
  have looked : p.looked.core = p.core := by
    simp only [looked, getHotEpochPage_page, pageCool_page]
    split_ifs <;> rfl
  cases h with
  | left => rfl
  | warmed heat seen => exact looked
  | heated heat seen may => exact looked

end Page

/-! ## Blocks alike -/

structure Block.Alike (b c : Block) : Prop where
  addr : c.addr = b.addr
  shift : c.groupShift = b.groupShift
  swapped : c.swappedIn = b.swappedIn
  core : ∀ i, (c.page i).core = (b.page i).core

theorem Block.Alike.symm {b c : Block} (h : b.Alike c) : c.Alike b :=
  ⟨h.addr.symm, h.shift.symm, h.swapped.symm, fun i => (h.core i).symm⟩

theorem Block.Alike.trans {b c d : Block} (h : b.Alike c) (k : c.Alike d) : b.Alike d :=
  ⟨k.addr.trans h.addr, k.shift.trans h.shift, k.swapped.trans h.swapped,
    fun i => (k.core i).trans (h.core i)⟩

/-- Two answers are the same, and the blocks they leave are alike. -/
def Agree {α : Type} (x y : α × Block) : Prop := y.1 = x.1 ∧ x.2.Alike y.2

/-- An answer passed on, with an address in place of success. -/
theorem Agree.ok {x y : Except Errno Unit × Block} (addr : UInt64) : Agree x y →
    Agree
      (match x with
        | (.error e, b) => (Except.error e, b)
        | (.ok (), b) => (.ok addr, b))
      (match y with
        | (.error e, b) => (Except.error e, b)
        | (.ok (), b) => (.ok addr, b)) := by
  obtain ⟨x, b⟩ := x
  obtain ⟨y, c⟩ := y
  rintro ⟨same, alike⟩
  cases same
  cases x with
  | error e => exact ⟨rfl, alike⟩
  | ok done => exact ⟨rfl, alike⟩

section Calls

variable {b c : Block}

namespace Block.Alike

section

variable (h : b.Alike c)
include h

theorem npages : c.npages = b.npages := Control.npages_congr h.addr

theorem validate (r : Range) : c.validate r = b.validate r := by
  rw [Control.validate, Control.validate, h.addr]

theorem pageAddr (i : Nat) : c.pageAddr i = b.pageAddr i := by
  rw [Control.pageAddr, Control.pageAddr, h.addr]

theorem status (i : Nat) : (c.page i).status = (b.page i).status :=
  congrArg Core.status (h.core i)

theorem isFree : c.isFree = b.isFree := by
  funext i
  rw [Block.isFree, Block.isFree, h.status]

/-- Pages that change alike stay alike. -/
theorem of_pages {b' c' : Block} (left : b'.toControl = b.toControl)
    (right : c'.toControl = c.toControl) (core : ∀ i, (c'.page i).core = (b'.page i).core) :
    b'.Alike c' := by
  refine ⟨?_, ?_, ?_, core⟩
  · rw [left, right, h.addr]
  · rw [left, right, h.shift]
  · rw [left, right, h.swapped]

theorem setProtections (start count : Nat) (status : UInt8) :
    (b.setProtections start count status).Alike (c.setProtections start count status) := by
  refine h.of_pages (setProtections_toControl ..) (setProtections_toControl ..) fun i => ?_
  rw [setProtections_page, setProtections_page]
  split_ifs
  · simp [h.core i]
  · exact h.core i

theorem freePages (start count : Nat) (adviseOnly : Bool) :
    (b.freePages start count adviseOnly).Alike (c.freePages start count adviseOnly) := by
  refine h.of_pages (freePages_toControl ..) (freePages_toControl ..) fun i => ?_
  rw [freePages_page, freePages_page]
  split_ifs <;> simp [h.core i]

end

theorem zeroOverlap {last : Nat} : ∀ {fuel i : Nat} {b c : Block}, b.Alike c →
    (b.zeroOverlap last fuel i).Alike (c.zeroOverlap last fuel i)
  | 0, _, _, _, h => h
  | fuel + 1, i, b, c, h => by
    rw [Block.zeroOverlap, Block.zeroOverlap, h.isFree]
    split_ifs
    · exact h
    · exact h.zeroOverlap
    · exact (h.freePages _ _ true).zeroOverlap

section

variable (h : b.Alike c)
include h

theorem munmapImpl (addr : Range) (adviseOnly : Bool) :
    Agree (b.munmapImpl addr adviseOnly) (c.munmapImpl addr adviseOnly) := by
  unfold Block.munmapImpl
  rw [h.validate, h.isFree]
  rcases b.validate addr with _ | ⟨start, count⟩
  · exact ⟨rfl, h⟩
  · dsimp only
    split_ifs
    · exact ⟨rfl, h⟩
    · exact ⟨rfl, h.freePages start count adviseOnly⟩

theorem mprotect (addr : Range) (prot : Prot) :
    Agree (b.mprotect addr prot) (c.mprotect addr prot) := by
  unfold Block.mprotect
  rw [h.validate, h.isFree]
  rcases b.validate addr with _ | ⟨start, count⟩
  · exact ⟨rfl, h⟩
  · dsimp only
    split_ifs
    · exact ⟨rfl, h⟩
    · exact ⟨rfl, h.setProtections start count _⟩

theorem mmapFixed (addr : Range) (prot : Prot) (noReplace zeroOverlap : Bool) :
    Agree (b.mmapFixed addr prot noReplace zeroOverlap)
      (c.mmapFixed addr prot noReplace zeroOverlap) := by
  unfold Block.mmapFixed
  rw [h.validate, h.isFree]
  rcases b.validate addr with _ | ⟨start, count⟩
  · exact ⟨rfl, h⟩
  · dsimp only
    split_ifs
    · exact ⟨rfl, h⟩
    · exact ⟨rfl, h.zeroOverlap.setProtections start count _⟩
    · exact ⟨rfl, h.setProtections start count _⟩

/-- The search looks at the allocation map only. -/
theorem findFreePages (left : b.Recorded) (right : c.Recorded) {arena : Range}
    {arenaStart arenaCount : Nat} (valid : b.validate arena = some (arenaStart, arenaCount))
    (npages : Nat) :
    c.findFreePages arenaStart arenaCount npages =
    b.findFreePages arenaStart arenaCount npages := by
  have bound := (Control.validate_bounds valid).2
  have map : c.mapFree = b.mapFree := by
    funext i
    rw [mapFree, mapFree, (right.consistent i).status, (left.consistent i).status, h.status]
  have placed := (right.counted (h.npages ▸ bound)).findFreePages npages
  rw [map] at placed
  exact placed.unique ((left.counted bound).findFreePages npages)

theorem mmap (left : b.Recorded) (right : c.Recorded) (addr : Range) (prot : Prot) (arena : Range)
    (noReplace zeroOverlap : Bool) :
    Agree (b.mmap addr prot arena noReplace zeroOverlap)
      (c.mmap addr prot arena noReplace zeroOverlap) := by
  unfold Block.mmap
  split_ifs
  · exact ⟨rfl, h⟩
  · exact ⟨rfl, h⟩
  · rw [h.validate]
    cases valid : b.validate arena with
    | none => exact ⟨rfl, h⟩
    | some window =>
      obtain ⟨arenaStart, arenaCount⟩ := window
      dsimp only
      rw [h.findFreePages left right valid]
      cases b.findFreePages arenaStart arenaCount (addr.size >>> 12).toNat with
      | none => exact ⟨rfl, h⟩
      | some start =>
        dsimp only
        rw [h.pageAddr]
        exact ⟨rfl, h.setProtections start _ _⟩
  · exact (h.mmapFixed addr prot noReplace zeroOverlap).ok addr.start

theorem mremap (addr : Range) (newSize : UInt64) :
    Agree (b.mremap addr newSize) (c.mremap addr newSize) := by
  unfold Block.mremap
  simp only [h.validate, h.isFree, h.status]
  split
  · exact ⟨rfl, h⟩
  next =>
  split
  · exact ⟨rfl, h⟩
  next =>
  rcases b.validate addr with _ | ⟨start, count⟩
  · exact ⟨rfl, h⟩
  · dsimp only
    split
    · cases b.validate ⟨addr.start, newSize⟩ with
      | none => exact ⟨rfl, h⟩
      | some full =>
        dsimp only
        split_ifs
        · exact ⟨rfl, h⟩
        · exact ⟨rfl, h⟩
        · exact ⟨rfl, h.setProtections _ _ _⟩
    · split
      · exact ⟨rfl, h⟩
      · exact (h.munmapImpl _ false).ok addr.start

theorem movePage (source dest : Nat) (carries : Bool) :
    (b.movePage source dest carries).Alike (c.movePage source dest carries) := by
  unfold Block.movePage
  rw [h.status]
  have protected_ := h.setProtections dest 1 (b.page source).status
  generalize b.setProtections dest 1 (b.page source).status = b' at protected_
  generalize c.setProtections dest 1 (b.page source).status = c' at protected_
  have core := protected_.core source
  have mem : (c'.page source).mem = (b'.page source).mem := congrArg Core.mem core
  have flag : (c'.page source).invisible = (b'.page source).invisible :=
    congrArg Core.invisible core
  refine protected_.of_pages (onPage_toControl ..) (onPage_toControl ..) fun i => ?_
  dsimp only
  rw [onPage_page, onPage_page]
  by_cases here : i = dest
  · have old := protected_.core dest
    rw [if_pos here, if_pos here, overwritePage_page, overwritePage_page, mem, flag,
      Page.overwritten_core, Page.overwritten_core]
    simp only [Page.core, Core.mk.injEq] at old ⊢
    exact ⟨old.1, trivial, trivial, trivial, old.2.2.2.2⟩
  · rw [if_neg here, if_neg here]
    exact protected_.core i

theorem mremapMove (left : b.Recorded) (right : c.Recorded) (addr : Range) (newSize : UInt64)
    (arena : Range) :
    Agree (b.mremapMove addr newSize arena) (c.mremapMove addr newSize arena) := by
  unfold Block.mremapMove
  simp only [h.validate, h.isFree]
  rcases b.validate addr with _ | ⟨start, count⟩
  · exact ⟨rfl, h⟩
  · dsimp only
    split_ifs
    · exact ⟨rfl, h⟩
    · exact ⟨rfl, h⟩
    · cases valid : b.validate arena with
      | none => exact ⟨rfl, h⟩
      | some window =>
        obtain ⟨arenaStart, arenaCount⟩ := window
        dsimp only
        rw [h.findFreePages left right valid]
        cases b.findFreePages arenaStart arenaCount (newSize >>> 12).toNat with
        | none => exact ⟨rfl, h⟩
        | some newStart =>
          dsimp only
          rw [h.pageAddr]
          have moved : ∀ n, (forRange 0 n (fun b k => b.movePage
              (if k < count then start + k else start + count - 1) (newStart + k)
              (k < count)) b).Alike
              (forRange 0 n (fun b k => b.movePage
                (if k < count then start + k else start + count - 1) (newStart + k)
                (k < count)) c) := by
            intro n
            induction n with
            | zero => exact h
            | succ n ih =>
              rw [forRange_succ, forRange_succ]
              exact ih.movePage _ _ _
          exact ⟨rfl, ((moved _).munmapImpl addr false).2⟩

theorem mremapMaymove (left : b.Recorded) (right : c.Recorded) (addr : Range) (newSize : UInt64)
    (arena : Range) (maymove : Bool) :
    Agree (b.mremapMaymove addr newSize arena maymove)
      (c.mremapMaymove addr newSize arena maymove) := by
  unfold Block.mremapMaymove
  split_ifs
  · exact h.mremap addr newSize
  · have agree := h.mremap addr newSize
    have left' : (b.mremap addr newSize).2.Recorded := (Op.mremap addr newSize).recorded left
    have right' : (c.mremap addr newSize).2.Recorded := (Op.mremap addr newSize).recorded right
    generalize b.mremap addr newSize = x at agree left'
    generalize c.mremap addr newSize = y at agree right'
    obtain ⟨x, b'⟩ := x
    obtain ⟨y, c'⟩ := y
    obtain ⟨same, alike⟩ := agree
    cases same
    split
    next e b'' refused =>
      cases refused
      exact alike.mremapMove left' right' addr newSize arena
    next answer other =>
      split
      next refused => cases refused; exact absurd rfl (other _)
      · exact ⟨rfl, alike⟩

end

end Block.Alike

end Calls

/-! ## Accesses -/

/-- A guest's read of page `i`: its bytes, or a fault. -/
def Block.guestLoad (b : Block) (i : Nat) : Option PageBytes :=
  if i < b.npages ∧ b.os (b.hostPage i) ≠ .none then some (b.page i).mem else none

/-- A guest's write to page `i`, which turns its bytes by `f`: whether it went ahead, after
the fault handler if the page is not mapped writable, and the block. -/
def Block.guestStore (b : Block) (i : Nat) (f : PageBytes → PageBytes) : Bool × Block :=
  if b.npages ≤ i then (false, b)
  else if (b.os (b.hostPage i)).writable then (true, b.poke i (f (b.page i).mem))
  else
    match b.trip (fun _ => true) true i with
    | (true, b) => (true, b.poke i (f (b.page i).mem))
    | (false, b) => (false, b)

section Accesses

variable {b c : Block}

theorem Block.Alike.guestLoad (h : b.Alike c) (left : b.Guarded 0) (right : c.Guarded 0) (i : Nat) :
    c.guestLoad i = b.guestLoad i := by
  have mem : (c.page i).mem = (b.page i).mem := congrArg Core.mem (h.core i)
  have seen : i < b.npages → (c.os i = .none ↔ b.os i = .none) := by
    intro hi
    cases swapped : b.swappedIn with
    | false => rw [left.unmapped swapped, right.unmapped (h.swapped.trans swapped)]
    | true =>
      rw [left.shown rfl swapped i hi,
        right.shown rfl (h.swapped.trans swapped) i (h.npages ▸ hi), Page.nativeProt_eq_none,
        Page.nativeProt_eq_none, h.status]
  unfold Block.guestLoad
  rw [h.npages, Control.hostPage_one left.shift, Control.hostPage_one right.shift, mem]
  refine if_congr ?_ rfl rfl
  refine and_congr_right fun hi => ?_
  rw [Ne, Ne, seen hi]

/-- A write to a page that is tracked and mapped goes ahead, and leaves its page dirty
whatever the host knew of it before. -/
theorem Block.Guarded.guestStore_ok (h : b.Guarded 0) {i : Nat} (hi : i < b.npages)
    (swapped : b.swappedIn = true) (tracked : statusTracked (b.page i).status = true)
    (f : PageBytes → PageBytes) :
    b.guestStore i f = (true, b.guestWrite i (f (b.page i).mem)) ∧
      ∀ j, ((b.guestWrite i (f (b.page i).mem)).page j).core =
        if j = i then { (b.page i).core with mem := f (b.page i).mem, dirty := true }
        else (b.page j).core := by
  have inside : ¬ b.npages ≤ i := by omega
  have known : ¬ (b.npages ≤ i ∨ statusTracked (b.page i).status = false) := by simp [hi, tracked]
  unfold guestStore guestWrite
  rw [if_neg inside, if_neg known]
  split_ifs with writable
  · -- mapped writable: hot, or written before
    refine ⟨rfl, fun j => ?_⟩
    rw [Control.hostPage_one h.shift] at writable
    have opens := h.exact_ rfl i writable
    rw [Page.nativeProt_writable] at opens
    have dirty : (b.page i).dirty = true := by
      have hot := (h.settled i).hotDirty
      simp only [Page.opens] at opens
      grind
    rw [poke_page]
    split_ifs with here
    · rw [here]
      simp [Page.core, dirty]
    · rfl
  · -- the handler lets the page go, and no other: it has a host page to itself
    obtain ⟨c, served, -, page, -⟩ := trip_served swapped hi tracked
    have mem : (c.page i).mem = (b.page i).mem := by
      rw [page]
      split_ifs
      · exact congrArg Core.mem (Page.released_core _ _ _)
      · rfl
    rw [served]
    dsimp only
    rw [mem]
    refine ⟨rfl, fun j => ?_⟩
    rw [poke_page, page, Control.hostPage_one h.shift, Control.hostPage_one h.shift]
    by_cases here : j = i
    · subst here
      have released := Page.released_core b.planActive b.epochActive (b.page j)
      rw [if_pos rfl, if_pos ⟨⟨rfl, hi⟩, by simp [Page.heldBy, tracked]⟩, if_pos rfl]
      simp only [Page.core, Core.mk.injEq] at released ⊢
      exact ⟨released.1, released.2.1, trivial, released.2.2.2⟩
    · rw [if_neg here, if_neg fun both => here both.1.1, if_neg here]

theorem Block.Guarded.guestStore_refused (h : b.Guarded 0) {i : Nat}
    (no : ¬ (i < b.npages ∧ b.swappedIn = true ∧ statusTracked (b.page i).status = true))
    (f : PageBytes → PageBytes) : b.guestStore i f = (false, b) := by
  unfold guestStore
  split_ifs with outside writable
  · rfl
  · rw [Control.hostPage_one h.shift] at writable
    have opens := h.exact_ rfl i writable
    rw [Page.nativeProt_writable] at opens
    simp only [Page.opens, Bool.and_eq_true] at opens
    exact absurd ⟨by omega, h.unmapped.mapped writable, opens.1.1⟩ no
  · have untouched : b.trip (fun _ => true) true i = (false, b) := by
      unfold trip
      rw [if_pos]
      simp only [Bool.or_eq_true, Bool.not_eq_true', decide_eq_true_eq]
      by_contra all
      simp only [not_or, Bool.not_eq_false] at all
      exact no ⟨by omega, all.1.1, all.2⟩
    rw [untouched]

theorem Block.Alike.guestStore (h : b.Alike c) (left : b.Guarded 0) (right : c.Guarded 0) (i : Nat)
    (f : PageBytes → PageBytes) : Agree (b.guestStore i f) (c.guestStore i f) := by
  have mem : (c.page i).mem = (b.page i).mem := congrArg Core.mem (h.core i)
  by_cases allowed : i < b.npages ∧ b.swappedIn = true ∧ statusTracked (b.page i).status = true
  · obtain ⟨hi, swapped, tracked⟩ := allowed
    obtain ⟨wrote, core⟩ := left.guestStore_ok hi swapped tracked f
    obtain ⟨wrote', core'⟩ := right.guestStore_ok (h.npages ▸ hi) (h.swapped.trans swapped)
      (h.status i ▸ tracked) f
    rw [wrote, wrote']
    refine ⟨rfl, h.of_pages (guestWrite_toControl ..) (guestWrite_toControl ..) fun j => ?_⟩
    rw [core, core', mem, h.core i, h.core j]
  · rw [left.guestStore_refused allowed, right.guestStore_refused]
    · exact ⟨rfl, h⟩
    · rw [h.npages, h.swapped, h.status]
      exact allowed

end Accesses

/-! ## The guest acts, the host watches -/

/-- What a guest does. -/
inductive Act where
  | load (i : Nat)
  | store (i : Nat) (f : PageBytes → PageBytes)
  | mmap (addr : Range) (prot : Prot) (arena : Range) (noReplace zeroOverlap : Bool)
  | mmapFixed (addr : Range) (prot : Prot) (noReplace zeroOverlap : Bool)
  | munmap (addr : Range)
  | madviseDontneed (addr : Range)
  | mprotect (addr : Range) (prot : Prot)
  | mremap (addr : Range) (newSize : UInt64) (arena : Range) (maymove : Bool)

/-- What the guest gets to know. -/
inductive Outcome where
  | read (bytes : Option PageBytes)
  | wrote (allowed : Bool)
  | placed (answer : Except Errno UInt64)
  | done (answer : Except Errno Unit)

def Act.run (b : Block) : Act → Outcome × Block
  | .load i => (.read (b.guestLoad i), b)
  | .store i f => ((b.guestStore i f).map .wrote id)
  | .mmap addr prot arena noReplace zeroOverlap =>
    (b.mmap addr prot arena noReplace zeroOverlap).map .placed id
  | .mmapFixed addr prot noReplace zeroOverlap =>
    (b.mmapFixed addr prot noReplace zeroOverlap).map .done id
  | .munmap addr => (b.munmap addr).map .done id
  | .madviseDontneed addr => (b.madviseDontneed addr).map .done id
  | .mprotect addr prot => (b.mprotect addr prot).map .done id
  | .mremap addr newSize arena maymove =>
      (b.mremapMaymove addr newSize arena maymove).map .placed id

/-- What a host does to look at its guest. -/
inductive Watch where
  | epochBegin
  | epochClear
  | deltaSave (forward : Bool)
  | saveState
  | statePlan (dest : Option (Nat → PageBytes)) (capacity : Nat)
  | planFill (first past : Nat)
  | planFinish

def Watch.run (b : Block) : Watch → Block
  | .epochBegin => b.epochBegin.2
  | .epochClear => b.epochClear
  | .deltaSave forward => (b.deltaSave forward).2
  | .saveState => b
  | .statePlan dest capacity => (b.statePlan dest capacity).2
  | .planFill first past => (b.planFill first past).2
  | .planFinish => b.planFinish.2

section Steps

variable {b c : Block}

theorem Agree.map {α β : Type} {x y : α × Block} (h : Agree x y) (f : α → β) :
    Agree (x.map f id) (y.map f id) :=
  ⟨congrArg f h.1, h.2⟩

/-- Blocks alike answer a guest alike. -/
theorem Act.agree (h : b.Alike c) (left : b.Guarded 0) (right : c.Guarded 0) (a : Act) :
    Agree (a.run b) (a.run c) := by
  cases a with
  | load i => exact ⟨congrArg Outcome.read (h.guestLoad left right i), h⟩
  | store i f => exact (h.guestStore left right i f).map _
  | mmap addr prot arena noReplace zeroOverlap =>
    exact (h.mmap left.recorded right.recorded addr prot arena noReplace zeroOverlap).map _
  | mmapFixed addr prot noReplace zeroOverlap =>
    exact (h.mmapFixed addr prot noReplace zeroOverlap).map _
  | munmap addr => exact (h.munmapImpl addr false).map _
  | madviseDontneed addr => exact (h.munmapImpl addr true).map _
  | mprotect addr prot => exact (h.mprotect addr prot).map _
  | mremap addr newSize arena maymove =>
    exact (h.mremapMaymove left.recorded right.recorded addr newSize arena maymove).map _

theorem Act.guarded (h : b.Guarded 0) (a : Act) : (a.run b).2.Guarded 0 := by
  cases a with
  | load i => exact h
  | store i f =>
    show (b.guestStore i f).2.Guarded 0
    by_cases allowed : i < b.npages ∧ b.swappedIn = true ∧ statusTracked (b.page i).status = true
    · obtain ⟨hi, swapped, tracked⟩ := allowed
      rw [(h.guestStore_ok hi swapped tracked f).1]
      exact h.event (.op (.write i _))
    · rw [h.guestStore_refused allowed]
      exact h
  | mmap addr prot arena noReplace zeroOverlap =>
    exact h.event (.op (.mmap addr prot arena noReplace zeroOverlap))
  | mmapFixed addr prot noReplace zeroOverlap =>
    exact h.event (.op (.mmapFixed addr prot noReplace zeroOverlap))
  | munmap addr => exact h.event (.op (.munmap addr))
  | madviseDontneed addr => exact h.event (.op (.madviseDontneed addr))
  | mprotect addr prot => exact h.event (.op (.mprotect addr prot))
  | mremap addr newSize arena maymove =>
    exact h.host (Block.mremapMaymove_steps h.recorded addr newSize arena maymove)

theorem Block.Guarded.epochClear {groupShift : Nat} (h : b.Guarded groupShift) :
    b.epochClear.Guarded groupShift :=
  h.of_inSteps (InSteps.wider (.single b.epochClear_inStep)) h.recorded.epochClear
    (epochClear_keeps (P := fun _ p => p.Settled b.swappedIn)
      (fun _ _ h => ⟨h.hotDirty, h.hotHeld, h.hotUnheld, h.unheld, h.unmapped⟩) h.settled)

theorem Watch.guarded (h : b.Guarded 0) (w : Watch) : (w.run b).Guarded 0 := by
  cases w with
  | epochBegin => exact h.event .epochBegin
  | epochClear => exact h.epochClear
  | deltaSave forward => exact h.event (.deltaSave forward)
  | saveState => exact h
  | statePlan dest capacity => exact h.event (.op (.statePlan dest capacity))
  | planFill first past => exact h.event (.op (.planFill first past))
  | planFinish => exact h.event (.op .planFinish)

theorem Block.Alike.of_same {b c : Block} (same : b.toControl.Same c.toControl)
    (core : ∀ i, (c.page i).core = (b.page i).core) : b.Alike c :=
  ⟨same.addr, same.shift, same.swapped, core⟩

theorem planTake_core (wait : Bool) (i : Nat) (x : Track) :
    (planTake wait i x).page.core = x.page.core := by
  rw [planTake_page]
  rfl

/-- A look leaves the block alike to what it was. -/
theorem Watch.alike (b : Block) (w : Watch) : b.Alike (w.run b) := by
  have refl : b.Alike b := ⟨rfl, rfl, rfl, fun _ => rfl⟩
  cases w with
  | epochBegin =>
    refine .of_same (Event.epochBegin.same b) fun i => ?_
    show (b.epochBegin.2.page i).core = _
    cases is_sealed : b.isSealed with
    | false => simp [Block.epochBegin, is_sealed]
    | true =>
      rw [Block.epochBegin_page is_sealed]
      split_ifs
      · exact Page.opened_core _ _
      · rfl
  | epochClear =>
    refine ⟨?_, ?_, ?_, Block.epochClear_keeps (P := fun i p => p.core = (b.page i).core)
      (fun i p same => same) fun _ => rfl⟩ <;> simp [run, Block.epochClear]
  | deltaSave forward =>
    exact .of_same ((Event.deltaSave forward).same b) fun i => (b.deltaSave_page forward i).core
  | saveState => exact refl
  | statePlan dest capacity =>
    refine .of_same ((Op.statePlan dest capacity).same b) fun i => ?_
    rcases b.statePlan_page dest capacity i with same | ⟨slot, planned⟩
    · exact congrArg Page.core same
    · exact (congrArg Page.core planned).trans (Page.planned_core slot _ _)
  | planFill first past =>
    refine .of_same ((Op.planFill first past).same b) fun i => ?_
    show ((b.planFill first past).2.page i).core = _
    cases is : b.plan with
    | none => rw [Block.planFill_none is]
    | some plan =>
      rw [Block.planFill_eq is, Block.takes_page]
      split_ifs
      · exact planTake_core _ _ _
      · rfl
  | planFinish =>
    refine .of_same (Op.planFinish.same b) fun i => ?_
    show (b.planFinish.2.page i).core = _
    cases is : b.plan with
    | none => simp [Block.planFinish, is]
    | some plan =>
      rw [Block.planFinish_page is]
      split_ifs
      · rw [Page.refreshed_core]
        exact planTake_core _ _ _
      · rfl

end Steps

/-! ## Runs -/

inductive Step where
  | act (a : Act)
  | watch (w : Watch)

def Step.acts : Step → Bool
  | .act _ => true
  | .watch _ => false

/-- What the guest gets to know in a run, in order. -/
def outcomes (b : Block) : List Step → List Outcome
  | [] => []
  | .act a :: rest => (a.run b).1 :: outcomes (a.run b).2 rest
  | .watch w :: rest => outcomes (w.run b) rest

theorem outcomes_alike {b c : Block} (h : b.Alike c) (left : b.Guarded 0) (right : c.Guarded 0)
    (steps : List Step) : outcomes b steps = outcomes c (steps.filter Step.acts) := by
  induction steps generalizing b c with
  | nil => rfl
  | cons step rest ih =>
    cases step with
    | act a =>
      obtain ⟨same, alike⟩ := a.agree h left right
      rw [List.filter_cons_of_pos rfl, outcomes, outcomes, same,
        ih alike (a.guarded left) (a.guarded right)]
    | watch w =>
      rw [List.filter_cons_of_neg (by simp [Step.acts]), outcomes]
      exact ih ((Watch.alike b w).symm.trans h) (w.guarded left) right

/-- On a 4 KiB host no guest can tell whether it is watched. -/
theorem Life.outcomes_unwatched {b : Block} (h : Life 0 b) (steps : List Step) :
    outcomes b steps = outcomes b (steps.filter Step.acts) :=
  outcomes_alike ⟨rfl, rfl, rfl, fun _ => rfl⟩ h.guarded h.guarded steps

theorem Life.outcomes_unwatched_onePage : outcomes Block.onePage.sealNow.2
        [.watch .epochBegin, .act (.store 0 fun _ => .fill 9), .watch (.deltaSave true),
          .act (.load 0)] =
      outcomes Block.onePage.sealNow.2 [.act (.store 0 fun _ => .fill 9), .act (.load 0)] :=
  outcomes_unwatched (.sealNow Block.onePage_built.life) _

end MiniBox
