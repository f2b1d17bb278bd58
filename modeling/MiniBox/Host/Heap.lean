import MiniBox.Block.Flat
import MiniBox.Host.Dispatch

/-!
# The program break

The break is a number the host keeps; the pages under it are mapped by a call that can refuse.
`NR_brk` maps the pages from the old break to the new one only if all of them are free, and
moves the break whatever the mapping answers.  A guest may have mapped some of those pages
before, at an address it chose: the break then moves past pages that are as they were
(`HeapRun.grants_iff`).
-/

namespace MiniBox

open Lib

/-! ## Bytes and pages -/

section Bytes

variable {c : Control} {r : Range} {first count : Nat}

/-- The bytes of a valid range are inside the block, in the pages of the range. -/
theorem Control.validate_byte (aligned : c.Aligned) (valid : c.validate r = some (first, count))
    {k : Nat} (inside : k < r.size.toNat) :
    c.addr.start.toNat ≤ r.start.toNat + k ∧
      r.start.toNat + k < c.addr.start.toNat + c.addr.size.toNat ∧
      first ≤ (r.start.toNat + k - c.addr.start.toNat) / pageSize ∧
      (r.start.toNat + k - c.addr.start.toNat) / pageSize < first + count := by
  obtain ⟨start, size, bound⟩ := validate_spans aligned valid
  rw [npages, toNat_shift_page] at bound
  simp only [pageSize] at start size bound ⊢
  omega

end Bytes

/-! ## What a break is worth -/

/-- `brk(a)` above the break that answers `a` has made writable memory up to `a`; any other
leaves the break and the pages as they were. -/
def Host.Grants (h : Host) (a : UInt64) : Prop :=
  if h.programBreak < a ∧ (h.brk a).1 = a then
    (h.brk a).2.block.Permits h.programBreak (a - h.programBreak) true
  else (h.brk a).2.programBreak = h.programBreak ∧ (h.brk a).2.block = h.block

/-- The break moves to `a`. -/
abbrev Host.Moves (h : Host) (a : UInt64) : Prop :=
  a = alignDown a ∧ h.memory.layout.sbrk.start ≤ a ∧ a ≤ h.memory.layout.sbrk.finish ∧
    h.programBreak < a

/-- The pages a break moves past are all free, or all writable already. -/
def Host.HeapReady (h : Host) (a : UInt64) : Prop :=
  h.Moves a → h.rangeIsFree ⟨h.programBreak, a - h.programBreak⟩ = true ∨
    h.block.Permits h.programBreak (a - h.programBreak) true

section Grants

variable {h : Host} {a : UInt64}

theorem Host.brk_stays (stays : ¬ h.Moves a) : h.brk a = (sok h.programBreak, h) := by
  unfold brk
  dsimp only
  rw [if_pos]
  unfold Moves at stays
  by_contra none_
  simp only [not_or, not_not, ne_eq, UInt64.not_lt, UInt64.not_le] at none_
  exact stays none_

theorem Host.brk_moves (moves : h.Moves a) : h.brk a = (sok a, { h.withBlock
      (h.block.mmapFixed ⟨h.programBreak, a - h.programBreak⟩ .rw true false).2 with
        programBreak := a }) := by
  unfold brk
  dsimp only
  obtain ⟨aligned, low, high, above⟩ := moves
  rw [if_neg]
  simp only [not_or, not_not, ne_eq, UInt64.not_lt, UInt64.not_le]
  exact ⟨aligned, low, high, above⟩

/-- A range that is not free is not mapped. -/
theorem Host.mmapFixed_taken {r : Range} (taken : h.rangeIsFree r = false) (prot : Prot) :
    (h.block.mmapFixed r prot true false).2 = h.block := by
  unfold rangeIsFree at taken
  unfold Block.mmapFixed
  cases valid : h.block.validate r with
  | none => rfl
  | some found =>
    rw [valid] at taken
    have taken : allPages found.1 found.2 h.block.isFree = false := taken
    simp only [taken, Bool.not_false, Bool.and_self, if_true]

/-- A free range that is mapped writable may be written. -/
theorem Host.mmapFixed_writable {r : Range} (aligned : h.block.Aligned)
    (free : h.rangeIsFree r = true) (word : r.start.toNat + r.size.toNat ≤ 2 ^ 64) :
    (h.block.mmapFixed r .rw true false).2.Permits r.start r.size true := by
  unfold rangeIsFree at free
  unfold Block.mmapFixed
  cases valid : h.block.validate r with
  | none =>
    rw [valid] at free
    cases free
  | some found =>
    obtain ⟨first, count⟩ := found
    rw [valid] at free
    have free : allPages first count h.block.isFree = true := free
    simp only [free, Bool.not_true, Bool.and_false, Bool.false_eq_true, if_false]
    intro k inside
    have control := h.block.setProtections_toControl first count stRW
    obtain ⟨above, below, low, high⟩ := Control.validate_byte aligned valid inside
    refine ⟨by omega, ?_, ?_, ?_⟩
    · rw [protStatus, control]
      exact above
    · rw [protStatus, control]
      exact below
    · have cell := congrFun (h.block.setProtections_cells first count stRW)
        ((r.start.toNat + k - h.block.addr.start.toNat) / pageSize)
      rw [editCells, if_pos ⟨low, high⟩] at cell
      rw [protStatus, control]
      have status := congrArg PageCell.status cell
      rw [show (_ : Page).status = stRW from status]
      rfl

/-- A break is worth its pages exactly when they were all free, or all writable already. -/
theorem Host.grants_iff_ready (aligned : h.block.Aligned) : h.Grants a ↔ h.HeapReady a := by
  unfold Grants HeapReady
  by_cases moves : h.Moves a
  · rw [brk_moves moves, if_pos ⟨moves.2.2.2, rfl⟩]
    have above := moves.2.2.2
    have gap := UInt64.toNat_sub_of_le _ _ (UInt64.le_of_lt above)
    rw [UInt64.lt_iff_toNat_lt] at above
    have width := a.toNat_lt
    show Block.Permits (h.block.mmapFixed _ _ _ _).2 _ _ _ ↔ _
    cases free : h.rangeIsFree ⟨h.programBreak, a - h.programBreak⟩ with
    | true =>
      refine iff_of_true ?_ fun _ => .inl rfl
      exact mmapFixed_writable aligned free (by dsimp only; omega)
    | false =>
      rw [mmapFixed_taken free]
      exact ⟨fun permits _ => .inr permits, fun ready => (ready moves).resolve_left (by simp)⟩
  · have stays : ¬ (h.programBreak < a ∧ sok h.programBreak = a) := fun ⟨above, same⟩ =>
      UInt64.lt_irrefl _ (same ▸ above)
    rw [brk_stays moves, if_neg stays]
    exact iff_of_true ⟨rfl, rfl⟩ fun wrong => absurd wrong moves

end Grants

/-! ## Runs -/

/-- A call for a break or a mapping, or for its removal or protection. -/
inductive HeapStep (h : Host) : Host → Prop where
  | brk (a : UInt64) : HeapStep h (h.brk a).2
  | mmap (addr len prot flags : UInt64) : HeapStep h (h.mmap addr len prot flags).2
  | munmap (addr len : UInt64) : HeapStep h (h.munmap addr len).2
  | mprotect (addr len prot : UInt64) : HeapStep h (h.mprotect addr len prot).2

abbrev HeapRun : Host → Host → Prop := Relation.ReflTransGen HeapStep

section Runs

variable {h h' : Host}

theorem Host.mmapAt_block (r : Range) (prot : Prot) (noReplace : Bool) :
    (h.mmapAt r prot noReplace).2.block =
      (h.block.mmap r prot h.memory.layout.mmapArena noReplace (h.threads.spec == 3)).2 := by
  unfold mmapAt
  dsimp only
  split
  next answer => rw [answer]; rfl
  next answer =>
    rw [answer]
    dsimp only
    split <;> rfl

theorem Host.mmap_addr (addr len prot flags : UInt64) :
    (h.mmap addr len prot flags).2.block.addr = h.block.addr := by
  have placed (r : Range) (prot : Prot) (noReplace : Bool) :
      (h.mmapAt r prot noReplace).2.block.addr = h.block.addr := by
    rw [mmapAt_block]
    exact congrArg Control.addr (h.block.mmap_steps _ _ _ _ _).toControl
  unfold mmap
  split
  · rfl
  · split
    · rfl
    · split
      · rfl
      · split
        · rfl
        · dsimp only
          split_ifs <;> exact placed _ _ _

theorem HeapStep.aligned (step : HeapStep h h') (aligned : h.block.Aligned) :
    h'.block.Aligned := by
  have addr : h'.block.addr = h.block.addr := by
    cases step with
    | brk a =>
      by_cases moves : h.Moves a
      · rw [Host.brk_moves moves]
        exact congrArg Control.addr (h.block.mmapFixed_steps _ _ _ _).toControl
      · rw [Host.brk_stays moves]
    | mmap addr len prot flags => exact Host.mmap_addr addr len prot flags
    | munmap addr len =>
      unfold Host.munmap
      split
      · rfl
      · dsimp only
        split
        · rfl
        · exact congrArg Control.addr (h.block.munmapImpl_steps _ _).toControl
    | mprotect addr len prot =>
      unfold Host.mprotect
      split
      · rfl
      · split
        · rfl
        · exact congrArg Control.addr (h.block.mprotect_steps _ _).toControl
  unfold Control.Aligned at aligned ⊢
  rw [addr]
  exact aligned

/-- At every point of a run a break is memory, or not granted, exactly when the pages up to it are
all free or all writable before the call.  The block begins at a page, as `mb_block_new` has it. -/
theorem HeapRun.grants_iff (run : HeapRun h h') (aligned : h.block.Aligned) (a : UInt64) :
    h'.Grants a ↔ h'.HeapReady a := by
  refine Host.grants_iff_ready ?_
  induction run with
  | refl => exact aligned
  | tail _ step ih => exact step.aligned ih

/-- A machine with a heap of four pages, none of it in use. -/
def Host.fourPages : Host where
  threads := Threads.new.setSpec 3
  context := ⟨0, 0, 0, 0⟩
  memory :=
    { block :=
        { addr := ⟨0x100000000, 0x8000⟩, swappedIn := true, active := true, page := fun _ => {}
          shared := { groupFree := fun _ => 8 }, os := fun _ => .none }
      layout :=
        { elf := ⟨0x100000000, 0⟩, mainThread := ⟨0x100000000, 0⟩, altThread := ⟨0x100000000, 0⟩
          sbrk := ⟨0x100000000, 0x4000⟩, sealed_ := ⟨0x100004000, 0⟩, invis := ⟨0x100004000, 0⟩
          plain := ⟨0x100004000, 0⟩, mmapArena := ⟨0x100004000, 0x4000⟩ } }
  fs := { files := [], handles := [] }
  programBreak := 0x100000000

/-- The last page of the heap mapped, and a break of one page. -/
def Host.pageBelow : Host := ((fourPages.mmap 0x100003000 0x1000 3 0x32).2.brk 0x100001000).2

/-- Then a break of three pages is granted, and one of four is not worth its pages. -/
theorem HeapRun.grants_iff_free : Host.pageBelow.Grants 0x100003000 ∧
    ¬ Host.pageBelow.Grants 0x100004000 := by
  have run : HeapRun Host.fourPages Host.pageBelow :=
    .tail (.single (.mmap 0x100003000 0x1000 3 0x32)) (.brk 0x100001000)
  have aligned : Host.fourPages.block.Aligned := show (0x100000000 : UInt64) = _ by decide
  have free : Host.pageBelow.rangeIsFree ⟨0x100001000, 0x100003000 - 0x100001000⟩ = true := by
    decide +kernel
  have taken : Host.pageBelow.rangeIsFree ⟨0x100001000, 0x100004000 - 0x100001000⟩ = false := by
    decide +kernel
  refine ⟨(grants_iff run aligned 0x100003000).mpr fun _ => .inl free, fun grants => ?_⟩
  rcases (grants_iff run aligned 0x100004000).mp grants (by decide +kernel) with all | permits
  · exact Bool.noConfusion (taken.symm.trans all)
  · exact Bool.noConfusion (permits 0 (by decide +kernel)).status

/-- A page of the heap mapped to be read only. -/
def Host.readOnly : Host := (fourPages.mmap 0x100000000 0x1000 1 0x32).2

/-- A break past a page of the heap that was mapped to be read only: it is granted, and the page
cannot be written. -/
theorem HeapRun.grants_taken : HeapRun Host.fourPages Host.readOnly ∧
    Host.readOnly.programBreak = 0x100000000 ∧ (Host.readOnly.brk 0x100001000).1 = 0x100001000 ∧
      (Host.readOnly.brk 0x100001000).2.programBreak = 0x100001000 ∧
      ((Host.readOnly.brk 0x100001000).2.block.page 0).status = stR ∧
      ¬ Host.readOnly.Grants 0x100001000 := by
  have mapped : HeapStep Host.fourPages Host.readOnly := .mmap 0x100000000 0x1000 1 0x32
  have status : ((Host.readOnly.brk 0x100001000).2.block.page 0).status = stR := by decide +kernel
  have granted : Host.readOnly.programBreak < 0x100001000 ∧
      (Host.readOnly.brk 0x100001000).1 = 0x100001000 := by decide +kernel
  refine ⟨.single mapped, by decide +kernel, granted.2, by decide +kernel, status, fun grants => ?_⟩
  unfold Host.Grants at grants
  rw [if_pos granted] at grants
  have byte := (grants 0 (by decide +kernel)).status
  have page : (Host.readOnly.programBreak.toNat + 0 -
      (Host.readOnly.brk 0x100001000).2.block.addr.start.toNat) / pageSize = 0 := by decide +kernel
  rw [page, status] at byte
  cases byte

end Runs

/-! ## The host's own accesses -/

theorem statusPermits_eq (write : Bool) (s : UInt8) : statusPermits write s = (s != stFree &&
    if write then s == stRW || s == stRWX || s == stRWStack
    else s == stR || s == stRW || s == stRX || s == stRWX || s == stRWStack) := by
  unfold statusPermits statusProt
  cases write <;> split_ifs <;>
    simp_all [Prot.writable, Prot.readable, stFree, stNone, stR, stRX, stRW, stRWX, stRWStack]

/-- `mb_block_host_can` answers for every byte of a guest without a fault handler. -/
theorem Block.hostCan_iff (b : Block) (mapped : b.addr.start.toNat + b.addr.size.toNat ≤ 2 ^ 64)
    (addr len : UInt64) (write : Bool) :
    b.hostCan addr len write false = true ↔ b.Permits addr len write := by
  have off := UInt64.toNat_sub addr b.addr.start
  have left := UInt64.toNat_sub b.addr.size (addr - b.addr.start)
  have last := UInt64.toNat_sub (addr - b.addr.start + len) 1
  simp only [UInt64.toNat_add, UInt64.reduceToNat] at last
  have small := addr.toNat_lt
  have size := b.addr.size.toNat_lt
  by_cases none_ : len = 0
  · simp [hostCan, Permits, none_]
  have pos : len.toNat ≠ 0 := fun zero => none_ (UInt64.toNat_inj.mp zero)
  simp only [hostCan, if_neg none_, Bool.if_false_left, Bool.and_eq_true, Bool.not_eq_true',
    decide_eq_false_iff_not, not_or, UInt64.le_iff_toNat_le, UInt64.lt_iff_toNat_lt, allPages_iff,
    toNat_shift_page, Bool.or_false, ← statusPermits_eq]
  constructor
  · rintro ⟨⟨low, inside, high⟩, all⟩ k below
    refine ⟨by omega, by omega, by omega, all _ ?_ ?_⟩ <;> simp only [pageSize] <;> omega
  · intro all
    have first := (all 0 (by omega)).above
    have final := (all (len.toNat - 1) (by omega)).below
    refine ⟨by omega, fun i low high => ?_⟩
    have byte := (all (i * 4096 - (addr.toNat - b.addr.start.toNat)) (by omega)).status
    rwa [show (_ : Nat) / pageSize = i by simp only [pageSize]; omega] at byte

theorem Block.hostCan_iff_pair : pair.Permits 0x100000000 0x2000 true :=
  (hostCan_iff _ (by decide +kernel) _ _ _).mp (by decide +kernel)

end MiniBox
