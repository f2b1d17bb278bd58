import MiniBox.Block.Track
import MiniBox.Lib.Loop

/-!
# The block, and what the OS was told

A `Block` is an `mb_block`: its pages, the words they share, the protection last
given to the OS for each host page, and the fields no page operation changes
(`Control`).  A host page is `2 ^ groupShift` machine pages, one on a 4 KiB
host.  The block is the Linux one: never lazy, never in pieces, and the OS is
asked for exactly the protection the group wants.

`refreshRange` is the one way a protection reaches the OS outside the fault
handler.  It records what it mapped (`noteProt`) and gives every host page it
touches the protection of its group; `refreshRange_page` and `refreshRange_os`
say so for any host page size.
-/

namespace MiniBox

open Lib

/-! ## Ranges of addresses -/

variable {b : Control} {r : Range} {start count j g k : Nat} {f : Nat → Track → Track}

/-- `mb_range`. -/
structure Range where
  start : UInt64
  size : UInt64
  deriving DecidableEq

/-- `mb_range_end`, wrapping as a machine word does. -/
def Range.finish (r : Range) : UInt64 := r.start + r.size

def alignDown (a : UInt64) : UInt64 := a &&& ~~~0xfff

def alignUp (a : UInt64) : UInt64 := ((a - 1) ||| 0xfff) + 1

/-- `mb_range_align_expand`. -/
def Range.alignExpand (r : Range) : Range :=
  ⟨alignDown r.start, alignUp r.finish - alignDown r.start⟩

/-! ## The block -/

/-- A state being filled while the machine runs: the caller's buffer and the
pages it still needs. -/
structure Plan where
  /-- what was written before the page data -/
  head : Bytes
  /-- what the caller's buffer held where page data goes, page by page -/
  room : Nat → PageBytes
  /-- `plan_list`; its length is `plan_count` -/
  list : List Nat

/-- What page operations leave alone. -/
structure Control where
  addr : Range
  /-- `mb_host_page_shift - MB_PAGESHIFT` -/
  groupShift : Nat := 0
  isSealed : Bool := false
  loadTouched : Bool := false
  swappedIn : Bool := false
  active : Bool := false
  hash : Bytes := []
  epochActive : Bool := false
  epochNo : UInt16 := 0
  plan : Option Plan := none

structure Block extends Control where
  page : Nat → Page
  shared : Shared
  /-- the protection last given to the OS, by host page -/
  os : Nat → Prot

namespace Control

def npages (b : Control) : Nat := (b.addr.size >>> 12).toNat

/-- `mb_group_pages`. -/
def groupPages (b : Control) : Nat := 2 ^ b.groupShift

/-- The host page machine page `i` is in. -/
def hostPage (b : Control) (i : Nat) : Nat := i / b.groupPages

def planActive (b : Control) : Bool := b.plan.isSome

theorem groupPages_pos (b : Control) : 0 < b.groupPages := Nat.two_pow_pos _

/-- `validate`: the first page and the page count of an aligned range inside
the block. -/
def validate (b : Control) (r : Range) : Option (Nat × Nat) :=
  if r.size = 0 ∨ r.start < b.addr.start ∨ r.start - b.addr.start > b.addr.size ∨
      r.size > b.addr.size - (r.start - b.addr.start) ∨
      r.start ≠ alignDown r.start ∨ r.size ≠ alignDown r.size then none
  else some (((r.start - b.addr.start) >>> 12).toNat, (r.size >>> 12).toNat)

end Control

theorem toNat_shift_page (a : UInt64) : (a >>> 12).toNat = a.toNat / 4096 := by
  rw [UInt64.toNat_shiftRight, Nat.shiftRight_eq_div_pow]
  rfl

theorem alignDown_eq_shift (a : UInt64) : alignDown a = a >>> 12 <<< 12 := by
  apply UInt64.toBitVec_inj.mp
  ext i hi
  have mask : (4095#64)[i] = decide (i < 12) := by
    rw [← BitVec.getLsbD_eq_getElem, BitVec.getLsbD_ofNat]
    have := Nat.testBit_two_pow_sub_one 12 i
    simp only [Nat.reducePow, Nat.reduceSub] at this
    simp [hi, this]
  simp only [alignDown, UInt64.toBitVec_and, UInt64.toBitVec_not, UInt64.toBitVec_shiftLeft,
    UInt64.toBitVec_shiftRight, BitVec.getElem_and, BitVec.getElem_not, UInt64.toBitVec_ofNat,
    mask]
  by_cases low : i < 12
  · simp [low]
  · have : 12 + (i - 12) = i := by omega
    simp [low, this, BitVec.getLsbD_eq_getElem, hi]

theorem toNat_alignDown (a : UInt64) : (alignDown a).toNat = a.toNat / 4096 * 4096 := by
  have small := a.toNat_lt
  rw [alignDown_eq_shift, UInt64.toNat_shiftLeft, UInt64.toNat_shiftRight,
    Nat.shiftRight_eq_div_pow, Nat.shiftLeft_eq]
  simp only [UInt64.reduceToNat, Nat.reduceMod, Nat.reducePow]
  omega

theorem eq_alignDown_iff (a : UInt64) : a = alignDown a ↔ a.toNat % 4096 = 0 := by
  rw [← UInt64.toNat_inj, toNat_alignDown]
  omega

/-- The ranges `validate` accepts, and its answer, in numbers that do not wrap. -/
theorem Control.validate_iff : b.validate r = some (start, count) ↔ 0 < r.size.toNat ∧
    b.addr.start.toNat ≤ r.start.toNat ∧
    r.start.toNat + r.size.toNat ≤ b.addr.start.toNat + b.addr.size.toNat ∧
    r.start.toNat % 4096 = 0 ∧ r.size.toNat % 4096 = 0 ∧
    start = (r.start.toNat - b.addr.start.toNat) / 4096 ∧ count = r.size.toNat / 4096 := by
  have zero : r.size = 0 ↔ r.size.toNat = 0 := UInt64.toNat_inj.symm
  have off := UInt64.toNat_sub r.start b.addr.start
  have left := UInt64.toNat_sub b.addr.size (r.start - b.addr.start)
  have base := b.addr.start.toNat_lt
  have place := r.start.toNat_lt
  have room := b.addr.size.toNat_lt
  simp only [validate, Option.ite_none_left_eq_some, Option.some.injEq, Prod.mk.injEq, not_or,
    UInt64.not_lt, gt_iff_lt, ne_eq, not_not, eq_alignDown_iff, toNat_shift_page,
    UInt64.le_iff_toNat_le, zero]
  omega

theorem Control.validate_eq (h : b.validate r = some (start, count)) :
    start = (r.start.toNat - b.addr.start.toNat) / 4096 ∧ count = r.size.toNat / 4096 :=
  (validate_iff.mp h).2.2.2.2.2

/-- A range `validate` accepts is not empty and lies inside the block. -/
theorem Control.validate_bounds (h : b.validate r = some (start, count)) :
    0 < count ∧ start + count ≤ b.npages := by
  have := validate_iff.mp h
  rw [npages, toNat_shift_page]
  omega

/-! ## Page operations at an index -/

namespace Block

/-- A page operation at page `i`. -/
def onPage (b : Block) (i : Nat) (f : Track → Track) : Block :=
  let x := f ⟨b.page i, b.shared⟩
  { b with page := Function.update b.page i x.page, shared := x.shared }

/-- A page operation at every page of `[start, start + count)`, in order. -/
def onPages (b : Block) (start count : Nat) (f : Nat → Track → Track) : Block :=
  forRange start count (fun b i => b.onPage i (f i)) b

@[simp] theorem onPage_toControl (b : Block) (i : Nat) (f : Track → Track) :
    (b.onPage i f).toControl = b.toControl := rfl

@[simp] theorem onPage_os (b : Block) (i : Nat) (f : Track → Track) :
    (b.onPage i f).os = b.os := rfl

@[simp] theorem onPage_shared (b : Block) (i : Nat) (f : Track → Track) :
    (b.onPage i f).shared = (f ⟨b.page i, b.shared⟩).shared := rfl

theorem onPage_page (b : Block) (i : Nat) (f : Track → Track) (j : Nat) :
    (b.onPage i f).page j = if j = i then (f ⟨b.page i, b.shared⟩).page else b.page j := by
  by_cases h : j = i
  · subst h
    simp [onPage]
  · simp [onPage, h]

@[simp] theorem onPage_page_self (b : Block) (i : Nat) (f : Track → Track) :
    (b.onPage i f).page i = (f ⟨b.page i, b.shared⟩).page := by
  simp [onPage_page]

@[simp] theorem onPage_page_ne (b : Block) {i : Nat} (f : Track → Track) (h : j ≠ i) :
    (b.onPage i f).page j = b.page j := by
  simp [onPage_page, h]

theorem onPages_local (f : Nat → Track → Track) :
    Local page (fun (b : Block) i => b.onPage i (f i)) :=
  fun b _ _ h => b.onPage_page_ne _ h

@[simp] theorem onPages_toControl (b : Block) (start count : Nat)
    (f : Nat → Track → Track) : (b.onPages start count f).toControl = b.toControl :=
  forRange_inv (P := fun c : Block => c.toControl = b.toControl) rfl fun _ _ _ _ h => h

@[simp] theorem onPages_os (b : Block) (start count : Nat) (f : Nat → Track → Track) :
    (b.onPages start count f).os = b.os :=
  forRange_inv (P := fun c : Block => c.os = b.os) rfl fun _ _ _ _ h => h

theorem onPages_outside (b : Block) (f : Nat → Track → Track)
    (h : ¬ (start ≤ j ∧ j < start + count)) : (b.onPages start count f).page j = b.page j :=
  forRange_outside (onPages_local f) h

/-- Inside the range each page is related to what it was as one operation
relates them. -/
theorem onPages_inside (b : Block) {R : Nat → Page → Page → Prop}
    (step : ∀ i x, i < start + count → R i x.page (f i x).page) (lo : start ≤ j)
    (hi : j < start + count) :
    R j (b.page j) ((b.onPages start count f).page j) :=
  forRange_inside (onPages_local f) (C := fun _ => True) (fun _ _ _ => trivial)
    (fun b i _ h => by simpa using step i ⟨b.page i, b.shared⟩ h) trivial lo hi

/-- A loop whose operation is a function of the page is that function, page by
page. -/
theorem onPages_page (b : Block) {g : Nat → Page → Page}
    (hg : ∀ i x, (f i x).page = g i x.page) (j : Nat) :
    (b.onPages start count f).page j =
      if start ≤ j ∧ j < start + count then g j (b.page j) else b.page j :=
  forRange_cell (onPages_local f) (C := fun _ => True) (fun _ _ _ => trivial)
    (fun b i _ => by simpa using hg i ⟨b.page i, b.shared⟩) trivial j

/-- The same, for a loop over the whole block. -/
theorem onAll_page (b : Block) {g : Page → Page} (hg : ∀ i x, (f i x).page = g x.page)
    (j : Nat) :
    (b.onPages 0 b.npages f).page j = if j < b.npages then g (b.page j) else b.page j := by
  rw [b.onPages_page (g := fun _ => g) hg]
  simp only [Nat.zero_le, true_and, Nat.zero_add]

/-! ## The protection of a host page -/

/-- One protection for a whole host page: reading and running are granted if any
page of it wants them, writing only if some page wants it and no tracked page
is held. -/
def groupNativeProt (b : Block) (g : Nat) : Prot :=
  let n := b.groupPages
  let first := g * n
  if n = 1 then (b.page first).nativeProt
  else
    let pages := ((List.range' first n).filter (· < b.npages)).map b.page
    let prots := pages.map Page.nativeProt
    let r := prots.any (· != .none)
    let x := prots.any fun prot => prot == .rx || prot == .rwx
    let held := pages.any fun p => statusTracked p.status && !p.nativeProt.writable
    let w := prots.any Prot.writable && !held
    if x then (if w then .rwx else .rx) else if w then .rw else if r then .r else .none

theorem groupNativeProt_one {b : Block} (h : b.groupShift = 0) (g : Nat) :
    b.groupNativeProt g = (b.page g).nativeProt := by
  simp [groupNativeProt, Control.groupPages, h]

end Block

theorem Control.mem_hostPage :
    k ∈ List.range' (g * b.groupPages) b.groupPages ↔ b.hostPage k = g := by
  have pos := b.groupPages_pos
  rw [List.mem_range'_1, hostPage, Nat.div_eq_iff pos]
  omega

/-- A host page is writable when some page of it wants to be and no tracked page
of it is held. -/
theorem Block.groupNativeProt_writable_iff (b : Block) (hn : b.groupPages ≠ 1) :
    (b.groupNativeProt g).writable = true ↔
      (∃ k, b.hostPage k = g ∧ k < b.npages ∧ (b.page k).nativeProt.writable = true) ∧
        ∀ k, b.hostPage k = g → k < b.npages → statusTracked (b.page k).status = true →
          (b.page k).nativeProt.writable = true := by
  unfold groupNativeProt
  rw [if_neg hn]
  simp only [List.any_map, Function.comp_def]
  generalize hw : ((List.filter (· < b.npages) (List.range' (g * b.groupPages) b.groupPages)).any
      fun k => (b.page k).nativeProt.writable) = w
  generalize hh : ((List.filter (· < b.npages) (List.range' (g * b.groupPages) b.groupPages)).any
      fun k => statusTracked (b.page k).status && !(b.page k).nativeProt.writable) = held
  have wants : w = true ↔
      ∃ k, b.hostPage k = g ∧ k < b.npages ∧ (b.page k).nativeProt.writable = true := by
    rw [← hw, List.any_eq_true]
    simp only [List.mem_filter, Control.mem_hostPage, decide_eq_true_eq, and_assoc]
  have holds : held = false ↔
      ∀ k, b.hostPage k = g → k < b.npages → statusTracked (b.page k).status = true →
        (b.page k).nativeProt.writable = true := by
    rw [← hh, List.any_eq_false]
    simp only [List.mem_filter, Control.mem_hostPage, decide_eq_true_eq, and_imp]
    simp
  rw [← wants, ← holds]
  cases w <;> cases held <;> simp <;> split_ifs <;> simp [Prot.writable]

/-- No tracked page of a host page that is to be writable is held. -/
theorem Block.groupNativeProt_writable {b : Block} (hk : k < b.npages)
    (tracked : statusTracked (b.page k).status = true)
    (h : (b.groupNativeProt (b.hostPage k)).writable = true) :
    (b.page k).nativeProt.writable = true := by
  by_cases hn : b.groupPages = 1
  · simpa [groupNativeProt, Control.hostPage, hn] using h
  · exact ((b.groupNativeProt_writable_iff hn).mp h).2 k rfl hk tracked

theorem Block.groupNativeProt_writable_of {b : Block} {k : Nat} (hk : k < b.npages)
    (wants : (b.page k).nativeProt.writable = true)
    (open_ : ∀ j, b.hostPage j = b.hostPage k → j < b.npages →
      statusTracked (b.page j).status = true → (b.page j).nativeProt.writable = true) :
    (b.groupNativeProt (b.hostPage k)).writable = true := by
  by_cases hn : b.groupPages = 1
  · simpa [groupNativeProt, Control.hostPage, hn] using wants
  · exact (b.groupNativeProt_writable_iff hn).mpr ⟨⟨k, rfl, hk, wants⟩, open_⟩

/-- The protection of a host page is read off its pages' statuses and their own
protections. -/
theorem Block.groupNativeProt_congr {b c : Block} (control : c.toControl = b.toControl)
    (pages : ∀ k, (c.page k).status = (b.page k).status ∧
      (c.page k).nativeProt = (b.page k).nativeProt) (g : Nat) :
    c.groupNativeProt g = b.groupNativeProt g := by
  unfold groupNativeProt
  rw [control]
  simp only [List.any_map, Function.comp_def, pages]

/-! ## Refreshing -/

/-- The page after its own protection was applied and noted. -/
def Page.noted (p : Page) : Page :=
  { p with
    unheldBit := notProtected p.nativeProt p
    held := p.held && !p.nativeProt.writable }

/-- Noting a page writable lifts a hold that was not in force. -/
theorem Page.noted_opens (p : Page) : p.noted.opens = p.opens := by
  have wants := p.nativeProt_writable
  cases h : p.nativeProt.writable with
  | false => simp [noted, opens, h]
  | true =>
    rw [h] at wants
    simp only [opens, noted, h] at wants ⊢
    grind

theorem Page.noted_nativeProt (p : Page) : p.noted.nativeProt = p.nativeProt := by
  refine nativeProt_congr rfl rfl rfl fun cold => ?_
  have wants := p.nativeProt_writable
  simp only [noted, opens, cold] at wants ⊢
  grind

namespace Block

/-- `mb_pal_protect` on one host page. -/
def protect (b : Block) (g : Nat) (prot : Prot) : Block :=
  { b with os := Function.update b.os g prot }

@[simp] theorem protect_toControl (b : Block) (g : Nat) (prot : Prot) :
    (b.protect g prot).toControl = b.toControl := rfl

def refreshGroups (b : Block) (start count : Nat) : Block :=
  let b := b.onPages start count fun _ x => noteProt x.page.nativeProt x
  let first := start / b.groupPages
  let past := (start + count + b.groupPages - 1) / b.groupPages
  forRange first (past - first) (fun b g => b.protect g (b.groupNativeProt g)) b

/-- `refresh_range`.  Nothing is mapped before the block is swapped in. -/
def refreshRange (b : Block) (start count : Nat) : Block :=
  if !b.swappedIn then b
  else if b.groupPages > 1 then b.refreshGroups start count
  else
    forRange start count
      (fun b i =>
        let prot := (b.page i).nativeProt
        (b.protect i prot).onPage i (noteProt prot)) b

def refreshAll (b : Block) : Block := b.refreshRange 0 b.npages

end Block

/-- Host page `g` has a page in `[start, start + count)`. -/
def Control.touches (b : Control) (start count g : Nat) : Prop :=
  start / b.groupPages ≤ g ∧ g < (start + count + b.groupPages - 1) / b.groupPages

instance (b : Control) (start count g : Nat) : Decidable (b.touches start count g) :=
  inferInstanceAs (Decidable (_ ∧ _))

theorem Control.touches_of_mem {b : Control} {start count i : Nat} (lo : start ≤ i)
    (hi : i < start + count) : b.touches start count (b.hostPage i) := by
  have pos := b.groupPages_pos
  refine ⟨Nat.div_le_div_right lo, ?_⟩
  have : i + b.groupPages ≤ start + count + b.groupPages - 1 := by omega
  have step := Nat.div_le_div_right (c := b.groupPages) this
  rw [Nat.add_div_right _ pos] at step
  exact step

namespace Block

theorem onPages_shared (b : Block) {start count : Nat} {f : Nat → Track → Track}
    (hf : ∀ i x, (f i x).shared = x.shared) : (b.onPages start count f).shared = b.shared :=
  forRange_inv (P := fun c : Block => c.shared = b.shared) rfl
    fun c i _ _ h => by rw [onPage_shared, hf, h]

/-- The grouped refresh first notes its pages and then only protects. -/
theorem refreshGroups_rest (b : Block) (start count : Nat) :
    (b.refreshGroups start count).toControl = b.toControl ∧
      (b.refreshGroups start count).shared = b.shared ∧
      (b.refreshGroups start count).page =
        (b.onPages start count fun _ x => noteProt x.page.nativeProt x).page := by
  unfold refreshGroups
  refine forRange_inv (P := fun c : Block => c.toControl = b.toControl ∧ c.shared = b.shared ∧
      c.page = (b.onPages start count fun _ x => noteProt x.page.nativeProt x).page)
    ⟨by simp, b.onPages_shared fun _ _ => rfl, rfl⟩ fun _ _ _ _ h => h

theorem noteAll_page (b : Block) (start count j : Nat) :
    (b.onPages start count fun _ x => noteProt x.page.nativeProt x).page j =
      if start ≤ j ∧ j < start + count then (b.page j).noted else b.page j :=
  b.onPages_page (g := fun _ p => p.noted) (fun _ _ => rfl) j

theorem noteAll_groupNativeProt (b : Block) (start count g : Nat) :
    (b.onPages start count fun _ x => noteProt x.page.nativeProt x).groupNativeProt g =
      b.groupNativeProt g := by
  refine groupNativeProt_congr (by simp) (fun k => ?_) g
  rw [b.noteAll_page]
  split_ifs
  · exact ⟨rfl, Page.noted_nativeProt _⟩
  · exact ⟨rfl, rfl⟩

theorem refreshGroups_os (b : Block) (start count g : Nat) : (b.refreshGroups start count).os g =
      if b.touches start count g then b.groupNativeProt g else b.os g := by
  have apart : Local os fun (c : Block) h => c.protect h (c.groupNativeProt h) :=
    fun _ _ _ h => Function.update_of_ne h _ _
  have cell := @forRange_cell _ _ _ _ apart
    (fun c : Block => ∀ h, c.groupNativeProt h = b.groupNativeProt h)
    (fun _ _ h => h) (fun h _ => b.groupNativeProt h)
    (fun c h same => by simp [protect, same])
    (start / b.groupPages)
    ((start + count + b.groupPages - 1) / b.groupPages - start / b.groupPages) _
    (b.noteAll_groupNativeProt start count) g
  simp only [refreshGroups, onPages_toControl, onPages_os] at cell ⊢
  rw [cell]
  unfold Control.touches
  refine if_congr ?_ rfl rfl
  omega

theorem refreshSingles_cell (b : Block) (start count j : Nat) :
    let c := forRange start count
      (fun (b : Block) i =>
        let prot := (b.page i).nativeProt
        (b.protect i prot).onPage i (noteProt prot)) b
    (c.page j, c.os j) =
      if start ≤ j ∧ j < start + count then ((b.page j).noted, (b.page j).nativeProt)
      else (b.page j, b.os j) := by
  have apart : Local (fun (b : Block) i => (b.page i, b.os i)) fun (b : Block) i =>
      (b.protect i (b.page i).nativeProt).onPage i (noteProt (b.page i).nativeProt) :=
    fun b i j h => by simp [protect, h]
  exact forRange_cell apart (C := fun _ => True) (fun _ _ _ => trivial)
    (g := fun _ c => (c.1.noted, c.1.nativeProt))
    (fun b i _ => by simp [protect, Page.noted]) trivial j

@[simp] theorem refreshRange_rest (b : Block) (start count : Nat) :
    (b.refreshRange start count).toControl = b.toControl ∧
      (b.refreshRange start count).shared = b.shared := by
  unfold refreshRange
  split_ifs
  · exact ⟨rfl, rfl⟩
  · exact ⟨(b.refreshGroups_rest start count).1, (b.refreshGroups_rest start count).2.1⟩
  · exact forRange_inv (P := fun c : Block => c.toControl = b.toControl ∧ c.shared = b.shared)
      ⟨rfl, rfl⟩ fun _ _ _ _ h => h

@[simp] theorem refreshRange_toControl (b : Block) (start count : Nat) :
    (b.refreshRange start count).toControl = b.toControl := (b.refreshRange_rest start count).1

@[simp] theorem refreshRange_shared (b : Block) (start count : Nat) :
    (b.refreshRange start count).shared = b.shared := (b.refreshRange_rest start count).2

/-- A refresh notes each page of its range. -/
theorem refreshRange_page (b : Block) (start count j : Nat) : (b.refreshRange start count).page j =
      if b.swappedIn = true ∧ start ≤ j ∧ j < start + count then (b.page j).noted
      else b.page j := by
  unfold refreshRange
  cases swapped : b.swappedIn
  · simp
  · by_cases grouped : b.groupPages > 1
    · simp only [Bool.not_true, Bool.false_eq_true, if_false, if_pos grouped, true_and]
      rw [(b.refreshGroups_rest start count).2.2, b.noteAll_page]
    · simp only [Bool.not_true, Bool.false_eq_true, if_false, if_neg grouped, true_and]
      have cell := congrArg Prod.fst (b.refreshSingles_cell start count j)
      rw [apply_ite Prod.fst] at cell
      exact cell

/-- A refresh gives every host page its range touches the protection of its
group. -/
theorem refreshRange_os (b : Block) (start count g : Nat) : (b.refreshRange start count).os g =
      if b.swappedIn = true ∧ b.touches start count g then b.groupNativeProt g else b.os g := by
  unfold refreshRange
  cases swapped : b.swappedIn
  · simp
  · by_cases grouped : b.groupPages > 1
    · simp only [Bool.not_true, Bool.false_eq_true, if_false, if_pos grouped, true_and]
      rw [b.refreshGroups_os]
    · simp only [Bool.not_true, Bool.false_eq_true, if_false, if_neg grouped, true_and]
      have one : b.groupPages = 1 := by
        have pos := b.groupPages_pos
        omega
      have cell := congrArg Prod.snd (b.refreshSingles_cell start count g)
      rw [apply_ite Prod.snd] at cell
      simp only [Control.touches, groupNativeProt, one, Nat.div_one, Nat.mul_one, if_true,
        Nat.add_sub_cancel]
      exact cell

end Block

end MiniBox
