import MiniBox.Block.Observe

/-!
# The memory calls as a flat table

To the guest its memory is a table of pages, each with a status and its bytes.  `MemCall.Meant`
says what each call that goes through does to such a table; a call that does not go through
does nothing to it.

The block is more than the table: its pages have baselines, dirty flags and epochs.  The calls
look at them in one place.  A page that is to be zeroed is left as it is when it is clean and
has a zero baseline, so the page reads zero afterwards if the records told the truth about it
(`Page.Honest`).  `Life.calls_meant` says that this is all the calls depend on.
-/

namespace MiniBox

open Lib

/-! ## The table -/

/-- A page, as the guest has it. -/
structure PageCell where
  status : UInt8
  mem : PageBytes

def Page.cell (p : Page) : PageCell := ⟨p.status, p.mem⟩

/-- The pages of a block as a table. -/
def Block.cells (b : Block) (i : Nat) : PageCell := (b.page i).cell

/-- The table with pages `[first, first + count)` changed. -/
def editCells (t : Nat → PageCell) (first count : Nat) (f : PageCell → PageCell) (i : Nat) :
    PageCell :=
  if first ≤ i ∧ i < first + count then f (t i) else t i

/-- The `size` bytes from address `start` on are pages `[first, first + count)` of the block.
Nothing wraps here. -/
structure Control.Spans (c : Control) (start size first count : Nat) : Prop where
  start : start = c.addr.start.toNat + pageSize * first
  size : size = pageSize * count
  inside : first + count ≤ c.npages

/-- The pages are free. -/
def AllFree (t : Nat → PageCell) (first count : Nat) : Prop :=
  ∀ i, first ≤ i → i < first + count → (t i).status = stFree

/-! ## The calls -/

inductive MemCall where
  | mmap (addr : Range) (prot : Prot) (arena : Range) (noReplace zeroOverlap : Bool)
  | mmapFixed (addr : Range) (prot : Prot) (noReplace zeroOverlap : Bool)
  | mprotect (addr : Range) (prot : Prot)
  | munmap (addr : Range)
  | madviseDontneed (addr : Range)
  | mremap (addr : Range) (newSize : UInt64)

namespace MemCall

/-- A call that went through, with an answer. -/
def answered (answer : UInt64) : Except Errno Unit × Block → Except Errno UInt64 × Block
  | (.error e, b) => (.error e, b)
  | (.ok (), b) => (.ok answer, b)

/-- The call made, with 0 for an answer that is no address. -/
def run (b : Block) : MemCall → Except Errno UInt64 × Block
  | .mmap addr prot arena noReplace zeroOverlap => b.mmap addr prot arena noReplace zeroOverlap
  | .mmapFixed addr prot noReplace zeroOverlap =>
    answered 0 (b.mmapFixed addr prot noReplace zeroOverlap)
  | .mprotect addr prot => answered 0 (b.mprotect addr prot)
  | .munmap addr => answered 0 (b.munmap addr)
  | .madviseDontneed addr => answered 0 (b.madviseDontneed addr)
  | .mremap addr newSize => b.mremap addr newSize

/-- What a call that goes through with an answer makes of the table. -/
inductive Meant (c : Control) (t : Nat → PageCell) : MemCall → UInt64 →
    (Nat → PageCell) → Prop where
  | mmapFixed {addr : Range} {prot : Prot} {noReplace zeroOverlap : Bool} {first count : Nat} :
      c.Spans addr.start.toNat addr.size.toNat first count →
      (noReplace = true → AllFree t first count) →
      Meant c t (.mmapFixed addr prot noReplace zeroOverlap) 0 (editCells t first count fun cell =>
        ⟨protStatus prot, if zeroOverlap && cell.status != stFree then .zero else cell.mem⟩)
  | mmapAt {addr arena : Range} {prot : Prot} {noReplace zeroOverlap : Bool} {first count : Nat} :
      addr.start ≠ 0 → c.Spans addr.start.toNat addr.size.toNat first count →
      (noReplace = true → AllFree t first count) →
      Meant c t (.mmap addr prot arena noReplace zeroOverlap) addr.start
        (editCells t first count fun cell =>
          ⟨protStatus prot, if zeroOverlap && cell.status != stFree then .zero else cell.mem⟩)
  /-- the pages are the call's to choose among the free ones of the arena -/
  | mmapBest {addr arena : Range} {prot : Prot} {noReplace zeroOverlap : Bool} {first count : Nat}
      {arenaFirst arenaCount : Nat} :
      addr.start = 0 → addr.size.toNat = pageSize * count →
      c.Spans arena.start.toNat arena.size.toNat arenaFirst arenaCount →
      arenaFirst ≤ first → first + count ≤ arenaFirst + arenaCount → AllFree t first count →
      Meant c t (.mmap addr prot arena noReplace zeroOverlap) (c.pageAddr first)
        (editCells t first count fun cell => ⟨protStatus prot, cell.mem⟩)
  | mprotect {addr : Range} {prot : Prot} {first count : Nat} :
      c.Spans addr.start.toNat addr.size.toNat first count →
      Meant c t (.mprotect addr prot) 0
        (editCells t first count fun cell => ⟨protStatus prot, cell.mem⟩)
  | munmap {addr : Range} {first count : Nat} :
      c.Spans addr.start.toNat addr.size.toNat first count →
      Meant c t (.munmap addr) 0 (editCells t first count fun _ => ⟨stFree, .zero⟩)
  | madviseDontneed {addr : Range} {first count : Nat} :
      c.Spans addr.start.toNat addr.size.toNat first count →
      Meant c t (.madviseDontneed addr) 0
        (editCells t first count fun cell => ⟨cell.status, .zero⟩)
  /-- the free pages that follow get the status of the first -/
  | grow {addr : Range} {newSize : UInt64} {first count more : Nat} :
      c.Spans addr.start.toNat addr.size.toNat first count →
      c.Spans addr.start.toNat newSize.toNat first (count + more) → 0 < more →
      AllFree t (first + count) more →
      Meant c t (.mremap addr newSize) addr.start
        (editCells t (first + count) more fun cell => ⟨(t first).status, cell.mem⟩)
  /-- the tail is freed -/
  | shrink {addr : Range} {newSize : UInt64} {first count less : Nat} :
      c.Spans addr.start.toNat newSize.toNat first count →
      c.Spans addr.start.toNat addr.size.toNat first (count + less) → 0 < less →
      Meant c t (.mremap addr newSize) addr.start
        (editCells t (first + count) less fun _ => ⟨stFree, .zero⟩)

/-- A call is all or nothing: refused, it changes no page's status, bytes or dirty flag, and
otherwise it changes the table as it is meant to. -/
def AllOrNothing (b : Block) (call : MemCall) : Prop :=
  match call.run b with
  | (.error _, c) => ∀ i, (c.page i).cell = (b.page i).cell ∧ (c.page i).dirty = (b.page i).dirty
  | (.ok answer, c) => call.Meant b.toControl b.cells answer c.cells

end MemCall

/-! ## What the calls look at -/

variable {c : Control} {first count : Nat} {r : Range} {b : Block}

/-- A page that looks zero to the records is zero: clean, visible and with a zero baseline. -/
def Page.Honest (p : Page) : Prop :=
  p.dirty = false → p.invisible = false → p.snap = .zero → p.mem = .zero

/-- The range is the pages `[first, first + count)`, and all of them are allocated. -/
def Block.Allocated (b : Block) (r : Range) (first count : Nat) : Prop :=
  b.validate r = some (first, count) ∧
    ∀ i, first ≤ i → i < first + count → (b.page i).status ≠ stFree

/-- Page `i` is one of a range that is allocated as a whole. -/
def Block.Holds (b : Block) (r : Range) (i : Nat) : Prop :=
  ∃ first count, b.Allocated r first count ∧ first ≤ i ∧ i < first + count

/-- Page `i` is an allocated page of a range that is mapped over. -/
def Block.Overlaps (b : Block) (r : Range) (noReplace zeroOverlap : Bool) (i : Nat) : Prop :=
  zeroOverlap = true ∧ noReplace = false ∧ ∃ first count, b.validate r = some (first, count) ∧
    first ≤ i ∧ i < first + count ∧ (b.page i).status ≠ stFree

/-- The pages a call zeroes, if it goes through. -/
def MemCall.Zeroes (b : Block) (i : Nat) : MemCall → Prop
  | .mmap addr _ _ noReplace zeroOverlap =>
    addr.size ≠ 0 ∧ addr.start ≠ 0 ∧ b.Overlaps addr noReplace zeroOverlap i
  | .mmapFixed addr _ noReplace zeroOverlap => b.Overlaps addr noReplace zeroOverlap i
  | .mprotect _ _ => False
  | .munmap addr => b.Holds addr i
  | .madviseDontneed addr => b.Holds addr i
  | .mremap addr newSize =>
    addr.start ≠ 0 ∧ newSize ≠ 0 ∧ newSize < addr.size ∧
    (∃ first count, b.Allocated addr first count) ∧
      b.Holds ⟨addr.start + newSize, addr.size - newSize⟩ i

/-! ## Ranges -/

/-- The block begins at a page. -/
def Control.Aligned (c : Control) : Prop := c.addr.start = alignDown c.addr.start

theorem Control.Spans.unique {start size first' count' : Nat} (h : c.Spans start size first count)
    (h' : c.Spans start size first' count') :
    first = first' ∧ count = count' := by
  have start := h.start.symm.trans h'.start
  have size := h.size.symm.trans h'.size
  simp only [pageSize] at start size
  omega

theorem Control.validate_size (h : c.validate r = some (first, count)) :
    r.size.toNat = count * 4096 := by
  have := validate_iff.mp h
  omega

/-- A range that `validate` accepts is pages of the block. -/
theorem Control.validate_spans (aligned : c.Aligned) (h : c.validate r = some (first, count)) :
    c.Spans r.start.toNat r.size.toNat first count := by
  have base := (eq_alignDown_iff _).mp aligned
  have := validate_iff.mp h
  refine ⟨?_, ?_, (validate_bounds h).2⟩
  all_goals
    rw [pageSize]
    omega

/-- The tail that is left of a range begins where the new size ends. -/
theorem Control.validate_tail {newSize : UInt64} {whole : Nat × Nat}
    (valid : c.validate r = some whole) (less : newSize < r.size)
    (tail : c.validate ⟨r.start + newSize, r.size - newSize⟩ = some (first, count)) :
    (r.start + newSize).toNat = r.start.toNat + newSize.toNat := by
  obtain ⟨-, above, within, -⟩ := validate_iff.mp valid
  obtain ⟨-, above', -⟩ := validate_iff.mp tail
  have small := c.addr.size.toNat_lt
  rw [UInt64.lt_iff_toNat_lt] at less
  dsimp only at above'
  rw [UInt64.toNat_add] at above' ⊢
  -- a sum that wrapped would lie below the block
  omega

/-! ## Pages of the table -/

theorem Page.cell_eq (p : Page) : p.cell = ⟨p.core.status, p.core.mem⟩ := rfl

theorem Block.setProtections_cells (b : Block) (first count : Nat) (status : UInt8) :
    (b.setProtections first count status).cells =
      editCells b.cells first count fun cell => ⟨status, cell.mem⟩ := by
  funext i
  rw [cells, setProtections_page, editCells]
  split
  · rw [Page.cell_eq, Page.refreshed_core, Page.restatus_core]
    rfl
  · rfl

/-- What `free_pages` leaves in a page. -/
def Page.left (p : Page) : PageBytes := p.core.freed.mem

/-- A page reads zero afterwards exactly if the records were right about it. -/
theorem Page.left_eq_zero (p : Page) : p.left = .zero ↔ p.Honest := by
  unfold left Core.freed core Honest
  dsimp only
  split
  · rename_i skips
    simp only [Bool.and_eq_true, Bool.not_eq_true', beq_iff_eq] at skips
    exact ⟨fun zero _ _ _ => zero, fun honest => honest skips.1.1 skips.1.2 skips.2⟩
  · rename_i zeroed
    refine ⟨fun _ clean visible snap => absurd ?_ zeroed, fun _ => rfl⟩
    simp [clean, visible, snap]

/-- A run of pages freed or zeroed, as the table has it. -/
theorem Block.freePages_cells (b : Block) (first count : Nat) (adviseOnly : Bool) (i : Nat) :
    (b.freePages first count adviseOnly).cells i =
      if first ≤ i ∧ i < first + count then
        ⟨if adviseOnly then (b.page i).status else stFree, (b.page i).left⟩
      else b.cells i := by
  rw [cells, freePages_page]
  split
  · rw [Page.cell_eq, Page.refreshed_core]
    cases adviseOnly with
    | false =>
      simp only [Bool.false_eq_true, if_false]
      rw [Page.restatus_core, Page.freed_core]
      rfl
    | true =>
      simp only [if_true]
      rw [Page.freed_core]
      rfl
  · rfl

/-- The pages are zero exactly if the records were right about all of them. -/
theorem Block.freePages_meant {adviseOnly : Bool} :
    (b.freePages first count adviseOnly).cells = editCells b.cells first count (fun cell =>
        ⟨if adviseOnly then cell.status else stFree, .zero⟩) ↔
      ∀ i, first ≤ i → i < first + count → (b.page i).Honest := by
  constructor
  · intro same i low high
    have here := congrArg PageCell.mem (congrFun same i)
    rw [freePages_cells, editCells, if_pos (And.intro low high), if_pos
      (And.intro low high)] at here
    exact (Page.left_eq_zero _).mp here
  · intro honest
    funext i
    rw [freePages_cells, editCells]
    split
    · rename_i range
      rw [(Page.left_eq_zero _).mpr (honest i range.1 range.2)]
      rfl
    · rfl

/-- The loop over what is mapped over zeroes the allocated pages and leaves the others. -/
theorem Block.zeroOverlap_core {last : Nat} : ∀ (fuel i : Nat) (b : Block), last ≤ i + fuel →
    ∀ j, ((b.zeroOverlap last fuel i).page j).core =
      if i ≤ j ∧ j < last ∧ (b.page j).status ≠ stFree then (b.page j).core.freed
      else (b.page j).core
  | 0, i, b, enough, j => by
    rw [zeroOverlap, if_neg (by omega)]
  | fuel + 1, i, b, enough, j => by
    rw [zeroOverlap]
    split
    · rename_i overlap
      rw [if_neg (by omega)]
    · rename_i inside
      split
      · rename_i free
        have free : (b.page i).status = stFree := by simpa [isFree] using free
        rw [zeroOverlap_core fuel (i + 1) b (by omega) j]
        by_cases here : j = i
        · subst here
          rw [if_neg (by omega), if_neg fun wrong => wrong.2.2 free]
        · exact if_congr (and_congr_left fun _ => by omega) rfl rfl
      · rename_i taken
        dsimp only
        have taken : (!b.isFree i) = true := by simpa using taken
        have past : i + 1 ≤ firstFrom (fun j => !b.isFree j) (last - i) i := by
          obtain ⟨n, more⟩ := Nat.exists_eq_add_one_of_ne_zero (show last - i ≠ 0 by omega)
          rw [more, firstFrom, if_pos taken]
          exact le_firstFrom _ _ _
        have within := firstFrom_le (fun j => !b.isFree j) (last - i) i
        have passed : ∀ j, i ≤ j → j < firstFrom (fun j => !b.isFree j) (last - i) i →
            (b.page j).status ≠ stFree := fun j low high => by
          have yes : (!b.isFree j) = true :=
            @firstFrom_passed (fun j => !b.isFree j) (last - i) i j low high
          simpa [isFree] using yes
        generalize firstFrom (fun j => !b.isFree j) (last - i) i = k at past within passed
        -- the pages zeroed just now are behind the loop
        have zeroed : ∀ j, ((b.freePages i (k - i) true).page j).core =
            if i ≤ j ∧ j < k then (b.page j).core.freed else (b.page j).core := fun j => by
          have range : i ≤ j ∧ j < i + (k - i) ↔ i ≤ j ∧ j < k := by omega
          rw [freePages_page, if_congr range rfl rfl]
          split
          · rw [if_pos rfl, Page.refreshed_core, Page.freed_core]
          · rfl
        have status : ((b.freePages i (k - i) true).page j).status = (b.page j).status := by
          have core := congrArg Core.status (zeroed j)
          rw [apply_ite Core.status] at core
          refine core.trans ?_
          split <;> rfl
        rw [zeroOverlap_core fuel k _ (by omega) j, status]
        by_cases behind : j < k
        · rw [if_neg fun later => by omega, zeroed j]
          refine if_congr ⟨fun range => ?_, fun range => ⟨range.1, behind⟩⟩ rfl rfl
          exact ⟨range.1, by omega, passed j range.1 behind⟩
        · rw [zeroed j, if_neg (c := i ≤ j ∧ j < k) fun range => behind range.2]
          exact if_congr (and_congr_left fun _ => by omega) rfl rfl

/-! ## The calls -/

theorem Block.munmapImpl_cases (b : Block) (addr : Range) (adviseOnly : Bool) :
    (∃ e, b.munmapImpl addr adviseOnly = (.error e, b)) ∧ (∀ i, ¬ b.Holds addr i) ∨
      ∃ first count, b.Allocated addr first count ∧
        b.munmapImpl addr adviseOnly = (.ok (), b.freePages first count adviseOnly) := by
  unfold munmapImpl
  split
  · rename_i refused
    refine .inl ⟨⟨_, rfl⟩, ?_⟩
    rintro i ⟨first, count, ⟨valid, -⟩, -⟩
    rw [refused] at valid
    cases valid
  · rename_i first count valid
    split
    · rename_i missing
      refine .inl ⟨⟨_, rfl⟩, ?_⟩
      rintro i ⟨first', count', ⟨valid', allocated⟩, -⟩
      rw [valid] at valid'
      cases valid'
      simp only [Bool.not_eq_true', ← Bool.not_eq_true, allPages_iff] at missing
      exact missing fun j low high => by simpa [isFree] using allocated j low high
    · rename_i all
      simp only [Bool.not_eq_true', Bool.not_eq_false] at all
      exact .inr ⟨first, count, ⟨valid, fun i low high => by
        simpa [isFree] using allPages_iff.mp all i low high⟩, rfl⟩

theorem Block.mmapFixed_cases (b : Block) (addr : Range) (prot : Prot)
    (noReplace zeroOverlap : Bool) :
    (∃ e, b.mmapFixed addr prot noReplace zeroOverlap = (.error e, b)) ∧
        (∀ i, ¬ b.Overlaps addr noReplace zeroOverlap i) ∨
      ∃ first count, b.validate addr = some (first, count) ∧
        (noReplace = true → AllFree b.cells first count) ∧
        b.mmapFixed addr prot noReplace zeroOverlap =
          (.ok (), (if zeroOverlap then b.zeroOverlap
            (first + count) count first else b).setProtections
            first count (protStatus prot)) := by
  unfold mmapFixed
  split
  · rename_i refused
    refine .inl ⟨⟨_, rfl⟩, ?_⟩
    rintro i ⟨-, -, first, count, valid, -⟩
    rw [refused] at valid
    cases valid
  · rename_i first count valid
    split
    · rename_i taken
      refine .inl ⟨⟨_, rfl⟩, ?_⟩
      rintro i ⟨-, replaces, -⟩
      rw [replaces] at taken
      cases taken
    · rename_i fits
      refine .inr ⟨first, count, valid, fun only i low high => ?_, rfl⟩
      simp only [only, Bool.true_and, Bool.not_eq_true', Bool.not_eq_false] at fits
      have free := allPages_iff.mp fits i low high
      show (b.page i).status = stFree
      simpa [isFree] using free

/-- Pages mapped over, as the table has them. -/
theorem Block.mapOver_cells (b : Block) (first count : Nat) (status : UInt8) (zeroOverlap : Bool)
    (i : Nat) :
    ((if zeroOverlap then b.zeroOverlap (first + count) count first else b).setProtections
        first count status).cells i =
      if first ≤ i ∧ i < first + count then
        ⟨status, if zeroOverlap && (b.page i).status != stFree then (b.page i).left
          else (b.page i).mem⟩
      else b.cells i := by
  rw [setProtections_cells, editCells]
  cases zeroOverlap with
  | false => rfl
  | true =>
    have core := b.zeroOverlap_core count first (Nat.le_refl (first + count)) i
    simp only [if_true, Bool.true_and, bne_iff_ne]
    split
    · rename_i range
      have same : first ≤ i ∧ i < first + count ∧ (b.page i).status ≠ stFree ↔
          (b.page i).status ≠ stFree := ⟨fun all => all.2.2, fun taken => ⟨range.1, range.2, taken⟩⟩
      rw [if_congr same rfl rfl] at core
      have mem := congrArg Core.mem core
      rw [apply_ite Core.mem] at mem
      exact congrArg (PageCell.mk status) mem
    · rename_i outside
      rw [if_neg fun all => outside ⟨all.1, all.2.1⟩] at core
      show (⟨_, _⟩ : PageCell) = ⟨_, _⟩
      exact congrArg (fun c : Core => (⟨c.status, c.mem⟩ : PageCell)) core

theorem Block.mapOver_meant {status : UInt8} {zeroOverlap : Bool} :
    ((if zeroOverlap then b.zeroOverlap (first + count) count first else b).setProtections
        first count status).cells =
      editCells b.cells first count (fun cell =>
        ⟨status, if zeroOverlap && cell.status != stFree then .zero else cell.mem⟩) ↔
    ∀ i, first ≤ i → i < first + count → zeroOverlap = true → (b.page i).status ≠ stFree →
      (b.page i).Honest := by
  constructor
  · intro same i low high zeroes taken
    have here := congrArg PageCell.mem (congrFun same i)
    have taken : ((b.page i).status != stFree) = true := bne_iff_ne.mpr taken
    have taken' : ((b.cells i).status != stFree) = true := taken
    rw [mapOver_cells, editCells, if_pos (And.intro low high), if_pos (And.intro low high)] at here
    simp only [zeroes, taken, taken', Bool.and_self, if_true] at here
    exact (Page.left_eq_zero _).mp here
  · intro honest
    funext i
    rw [mapOver_cells, editCells]
    split
    · rename_i range
      show (⟨_, _⟩ : PageCell) = ⟨_, if zeroOverlap && (b.page i).status != stFree then _ else _⟩
      split
      · rename_i zeroed
        simp only [Bool.and_eq_true, bne_iff_ne] at zeroed
        rw [(Page.left_eq_zero _).mpr (honest i range.1 range.2 zeroed.1 zeroed.2)]
      · rfl
    · rfl

/-! ## Each call -/

namespace MemCall

variable {b c : Block} {call : MemCall} {answer : UInt64} {addr : Range} {first count : Nat}
  {prot : Prot} {noReplace zeroOverlap : Bool}

theorem AllOrNothing.refused {e : Errno} (run : call.run b = (.error e, b)) :
    call.AllOrNothing b := by
  rw [AllOrNothing, run]
  exact fun i => ⟨rfl, rfl⟩

theorem allOrNothing_ok (run : call.run b = (.ok answer, c)) :
    call.AllOrNothing b ↔ call.Meant b.toControl b.cells answer c.cells := by
  rw [AllOrNothing, run]

/-- A page is one of a range exactly if it is one of the pages `validate` says. -/
theorem holds_iff (allocated : b.Allocated addr first count) (i : Nat) :
    b.Holds addr i ↔ first ≤ i ∧ i < first + count := by
  constructor
  · rintro ⟨first', count', ⟨valid, -⟩, range⟩
    rw [allocated.1] at valid
    cases valid
    exact range
  · exact fun range => ⟨first, count, allocated, range⟩

/-- A call that zeroes a range whole, to free it or to keep it. -/
theorem zeroed_meant {adviseOnly : Bool}
    (run : call.run b = answered answer (b.munmapImpl addr adviseOnly))
    (meant : ∀ {first count}, b.Allocated addr first count → ∀ t,
      call.Meant b.toControl b.cells answer t ↔ t = editCells b.cells first count fun cell =>
        ⟨if adviseOnly then cell.status else stFree, .zero⟩) :
    call.AllOrNothing b ↔ ∀ i, b.Holds addr i → (b.page i).Honest := by
  rcases b.munmapImpl_cases addr adviseOnly with ⟨⟨e, is⟩, none_⟩ | ⟨first, count, allocated, is⟩
  · rw [is] at run
    exact ⟨fun _ i holds => absurd holds (none_ i), fun _ => .refused run⟩
  · rw [is] at run
    rw [allOrNothing_ok run, meant allocated, Block.freePages_meant]
    constructor
    · intro honest i holds
      have range := (holds_iff allocated i).mp holds
      exact honest i range.1 range.2
    · intro honest i low high
      exact honest i ((holds_iff allocated i).mpr ⟨low, high⟩)

theorem munmap_meant (aligned : b.Aligned) (addr : Range) :
    (munmap addr).AllOrNothing b ↔ ∀ i, b.Holds addr i → (b.page i).Honest := by
  refine zeroed_meant rfl fun allocated t => ?_
  have spans := Control.validate_spans aligned allocated.1
  constructor
  · intro done
    cases done with
    | munmap spans' =>
      obtain ⟨rfl, rfl⟩ := spans.unique spans'
      rfl
  · rintro rfl
    exact .munmap spans

theorem madviseDontneed_meant (aligned : b.Aligned) (addr : Range) :
    (madviseDontneed addr).AllOrNothing b ↔ ∀ i, b.Holds addr i → (b.page i).Honest := by
  refine zeroed_meant rfl fun allocated t => ?_
  have spans := Control.validate_spans aligned allocated.1
  constructor
  · intro done
    cases done with
    | madviseDontneed spans' =>
      obtain ⟨rfl, rfl⟩ := spans.unique spans'
      rfl
  · rintro rfl
    exact .madviseDontneed spans

theorem mprotect_meant (aligned : b.Aligned) (addr : Range) (prot : Prot) :
    (mprotect addr prot).AllOrNothing b := by
  have run : (∃ e, (mprotect addr prot).run b = (.error e, b)) ∨
      ∃ first count, b.validate addr = some (first, count) ∧ (mprotect addr prot).run b =
          (.ok 0, b.setProtections first count (protStatus prot)) := by
    rw [run, Block.mprotect]
    split
    · exact .inl ⟨_, rfl⟩
    · rename_i first count valid
      split
      · exact .inl ⟨_, rfl⟩
      · exact .inr ⟨first, count, valid, rfl⟩
  rcases run with ⟨e, run⟩ | ⟨first, count, valid, run⟩
  · exact .refused run
  · rw [allOrNothing_ok run, Block.setProtections_cells]
    exact .mprotect (Control.validate_spans aligned valid)

/-- A page is overlapped exactly if it is allocated and one of the pages `validate` says. -/
theorem overlaps_iff {addr : Range} {first count : Nat}
    (valid : b.validate addr = some (first, count))
    {noReplace zeroOverlap : Bool} (fits : noReplace = true → AllFree b.cells first count)
    (i : Nat) :
    b.Overlaps addr noReplace zeroOverlap i ↔ first ≤ i ∧ i < first + count ∧ zeroOverlap = true ∧
      (b.page i).status ≠ stFree := by
  constructor
  · rintro ⟨zeroes, -, first', count', valid', low, high, taken⟩
    rw [valid] at valid'
    cases valid'
    exact ⟨low, high, zeroes, taken⟩
  · rintro ⟨low, high, zeroes, taken⟩
    refine ⟨zeroes, ?_, first, count, valid, low, high, taken⟩
    cases noReplace with
    | false => rfl
    | true => exact absurd (fits rfl i low high) taken

/-- A call that maps over a range. -/
theorem mapped_meant (aligned : b.Aligned)
    (run : call.run b = answered answer (b.mmapFixed addr prot noReplace zeroOverlap))
    (meant : ∀ t, call.Meant b.toControl b.cells answer t ↔
      ∃ first count, b.Spans addr.start.toNat addr.size.toNat first count ∧
        (noReplace = true → AllFree b.cells first count) ∧
        t = editCells b.cells first count fun cell =>
          ⟨protStatus prot, if zeroOverlap && cell.status != stFree then .zero else cell.mem⟩) :
    call.AllOrNothing b ↔ ∀ i, b.Overlaps addr noReplace zeroOverlap i → (b.page i).Honest := by
  rcases b.mmapFixed_cases addr prot noReplace zeroOverlap with
    ⟨⟨e, is⟩, none_⟩ | ⟨first, count, valid, fits, is⟩
  · rw [is] at run
    exact ⟨fun _ i overlap => absurd overlap (none_ i), fun _ => .refused run⟩
  · rw [is] at run
    have overlap := @overlaps_iff b addr first count valid noReplace zeroOverlap fits
    have spans := Control.validate_spans aligned valid
    rw [allOrNothing_ok run, meant]
    constructor
    · rintro ⟨first', count', spans', -, same⟩ i overlaps
      obtain ⟨rfl, rfl⟩ := spans.unique spans'
      obtain ⟨low, high, zeroes, taken⟩ := (overlap i).mp overlaps
      exact Block.mapOver_meant.mp same i low high zeroes taken
    · intro honest
      exact ⟨first, count, spans, fits, Block.mapOver_meant.mpr fun i low high zeroes taken =>
        honest i ((overlap i).mpr ⟨low, high, zeroes, taken⟩)⟩

theorem mmapFixed_meant (aligned : b.Aligned) (addr : Range) (prot : Prot)
    (noReplace zeroOverlap : Bool) :
    (mmapFixed addr prot noReplace zeroOverlap).AllOrNothing b ↔
      ∀ i, b.Overlaps addr noReplace zeroOverlap i → (b.page i).Honest := by
  refine mapped_meant aligned rfl fun t => ⟨fun done => ?_, ?_⟩
  · cases done with
    | mmapFixed spans fits => exact ⟨_, _, spans, fits, rfl⟩
  · rintro ⟨first, count, spans, fits, rfl⟩
    exact .mmapFixed spans fits

/-- A call that leaves the place to the search: it takes free pages and zeroes nothing. -/
theorem mmapBest_meant (aligned : b.Aligned) (recorded : b.Recorded) {arena : Range}
    (some_ : addr.size ≠ 0) (anywhere : addr.start = 0) :
    (mmap addr prot arena noReplace zeroOverlap).AllOrNothing b := by
  have run : (∃ e, (mmap addr prot arena noReplace zeroOverlap).run b = (.error e, b)) ∨
      ∃ arenaFirst arenaCount first, addr.size = alignDown addr.size ∧
        b.validate arena = some (arenaFirst, arenaCount) ∧
        b.findFreePages arenaFirst arenaCount (addr.size >>> 12).toNat = some first ∧
        (mmap addr prot arena noReplace zeroOverlap).run b =
          (.ok (b.pageAddr first),
            b.setProtections first (addr.size >>> 12).toNat (protStatus prot)) := by
    rw [run, Block.mmap, if_neg some_, if_pos anywhere]
    split
    · exact .inl ⟨_, rfl⟩
    · rename_i whole
      split
      · exact .inl ⟨_, rfl⟩
      · rename_i arenaFirst arenaCount valid
        dsimp only
        split
        · exact .inl ⟨_, rfl⟩
        · rename_i first found
          exact .inr ⟨arenaFirst, arenaCount, first, not_not.mp whole, valid, found, rfl⟩
  rcases run with ⟨e, run⟩ | ⟨arenaFirst, arenaCount, first, whole, valid, found, run⟩
  · exact .refused run
  · rw [allOrNothing_ok run, Block.setProtections_cells]
    have bounds := (Control.validate_bounds valid).2
    have inside := Block.findFreePages_bounds found
    have size : addr.size.toNat = addr.size.toNat / 4096 * 4096 := by
      rw [← toNat_alignDown, ← whole]
    refine .mmapBest anywhere ?_ (Control.validate_spans aligned valid) inside.1 inside.2
      fun i low high => recorded.findFreePages_free bounds found low high
    rw [toNat_shift_page, pageSize]
    omega

theorem mmap_meant (aligned : b.Aligned) (recorded : b.Recorded) (addr : Range) (prot : Prot)
    (arena : Range) (noReplace zeroOverlap : Bool) :
    (mmap addr prot arena noReplace zeroOverlap).AllOrNothing b ↔
      ∀ i, addr.size ≠ 0 ∧ addr.start ≠ 0 ∧ b.Overlaps addr noReplace zeroOverlap i →
        (b.page i).Honest := by
  by_cases empty : addr.size = 0
  · have run : (mmap addr prot arena noReplace zeroOverlap).run b = (.error .einval, b) := by
      rw [run, Block.mmap, if_pos empty]
    exact ⟨fun _ i zeroed => absurd empty zeroed.1, fun _ => .refused run⟩
  · by_cases anywhere : addr.start = 0
    · exact ⟨fun _ i zeroed => absurd anywhere zeroed.2.1, fun _ =>
        mmapBest_meant aligned recorded empty anywhere⟩
    · have run : (mmap addr prot arena noReplace zeroOverlap).run b =
          answered addr.start (b.mmapFixed addr prot noReplace zeroOverlap) := by
        rw [run, Block.mmap, if_neg empty, if_neg anywhere]
        rfl
      refine (mapped_meant aligned run fun t => ⟨fun done => ?_, ?_⟩).trans
        ⟨fun honest i zeroed => honest i zeroed.2.2, fun honest i overlap =>
          honest i ⟨empty, anywhere, overlap⟩⟩
      · generalize answer : addr.start = a at done
        cases done with
        | mmapAt _ spans fits => exact ⟨_, _, spans, fits, rfl⟩
        | mmapBest nowhere => exact absurd nowhere anywhere
      · rintro ⟨first, count, spans, fits, rfl⟩
        exact .mmapAt anywhere spans fits

/-! ## mremap -/

/-- The tail of a range that shrinks is what is left of it after the new size. -/
theorem shrink_meant (aligned : b.Aligned) {newSize : UInt64} {whole : Nat × Nat}
    (valid : b.validate addr = some whole) (less : newSize < addr.size)
    (tail : b.Allocated ⟨addr.start + newSize, addr.size - newSize⟩ first count)
    (t : Nat → PageCell) :
    (mremap addr newSize).Meant b.toControl b.cells addr.start t ↔
      t = editCells b.cells first count fun _ => ⟨stFree, .zero⟩ := by
  obtain ⟨wholeFirst, wholeCount⟩ := whole
  have start := Control.validate_tail valid less tail.1
  have nonempty := (Control.validate_bounds tail.1).1
  have spans := Control.validate_spans aligned valid
  have spansTail := Control.validate_spans aligned tail.1
  rw [UInt64.lt_iff_toNat_lt] at less
  have startTail := spansTail.start
  have sizeTail := spansTail.size
  dsimp only at startTail sizeTail
  rw [start] at startTail
  rw [UInt64.toNat_sub_of_le _ _ (UInt64.le_iff_toNat_le.mpr (Nat.le_of_lt less))] at sizeTail
  have inside := spansTail.inside
  have startIs := spans.start
  have sizeIs := spans.size
  simp only [pageSize] at startTail sizeTail startIs sizeIs
  constructor
  · intro done
    generalize answer : addr.start = a at done
    cases done with
    | grow old grown more _ =>
      have oldSize := old.size
      have newSize := grown.size
      simp only [pageSize] at oldSize newSize
      omega
    | @shrink _ _ first' count' less' kept old _ =>
      obtain ⟨rfl, sum⟩ := spans.unique old
      have keptSize := kept.size
      simp only [pageSize] at keptSize
      have same : wholeFirst + count' = first ∧ less' = count := by omega
      rw [same.1, same.2]
  · rintro rfl
    have sum : wholeFirst + (first - wholeFirst) = first ∧
        first - wholeFirst + count = wholeCount := by omega
    have kept : b.Spans addr.start.toNat newSize.toNat wholeFirst (first - wholeFirst) :=
      ⟨spans.start, by simp only [pageSize]; omega, by omega⟩
    have old : b.Spans addr.start.toNat addr.size.toNat wholeFirst
        (first - wholeFirst + count) := by
      rw [sum.2]
      exact spans
    have done := Meant.shrink (t := b.cells) kept old nonempty
    rw [sum.1] at done
    exact done

/-- What `mremap` does: it refuses, or takes the free pages that follow, or unmaps a tail. -/
theorem mremap_cases (b : Block) (addr : Range) (newSize : UInt64) :
    (∃ e, b.mremap addr newSize = (.error e, b)) ∧ (∀ i, ¬ (mremap addr newSize).Zeroes b i) ∨
      (addr.size < newSize ∧ ∃ first count more, b.Allocated addr first count ∧
        b.validate ⟨addr.start, newSize⟩ = some (first, count + more) ∧ 0 < more ∧
        AllFree b.cells (first + count) more ∧
        b.mremap addr newSize =
          (.ok addr.start, b.setProtections (first + count) more (b.page first).status)) ∨
      (addr.start ≠ 0 ∧ newSize ≠ 0 ∧ newSize ≤ addr.size ∧
        (∃ first count, b.Allocated addr first count) ∧
        b.mremap addr newSize =
          answered addr.start (b.munmapImpl ⟨addr.start + newSize,
            addr.size - newSize⟩ false)) := by
  by_cases empty : addr.size = 0 ∨ newSize = 0
  · refine .inl ⟨⟨.einval, by rw [Block.mremap, if_pos empty]⟩, fun i zeroed => ?_⟩
    obtain ⟨-, some_, less, -⟩ := zeroed
    rcases empty with zero | zero
    · rw [zero, UInt64.lt_iff_toNat_lt] at less
      exact absurd less (Nat.not_lt_zero _)
    · exact some_ zero
  by_cases nowhere : addr.start = 0
  · exact .inl ⟨⟨.enosys, by rw [Block.mremap, if_neg empty, if_pos nowhere]⟩, fun i zeroed =>
      zeroed.1 nowhere⟩
  cases valid : b.validate addr with
  | none =>
    refine .inl ⟨⟨.einval, by rw [Block.mremap, if_neg empty, if_neg nowhere, valid]⟩,
      fun i zeroed => ?_⟩
    obtain ⟨-, -, -, ⟨first, count, allocated⟩, -⟩ := zeroed
    rw [allocated.1] at valid
    cases valid
  | some whole =>
    obtain ⟨first, count⟩ := whole
    rw [Block.mremap, if_neg empty, if_neg nowhere, valid]
    dsimp only
    split
    · rename_i grows
      have quiet : ∀ i, ¬ (mremap addr newSize).Zeroes b i := fun i zeroed =>
        absurd zeroed.2.2.1 (UInt64.lt_asymm grows)
      split
      · exact .inl ⟨⟨_, rfl⟩, quiet⟩
      · rename_i fullFirst fullCount full
        split
        · exact .inl ⟨⟨_, rfl⟩, quiet⟩
        · rename_i allocated
          split
          · exact .inl ⟨⟨_, rfl⟩, quiet⟩
          · rename_i free
            simp only [Bool.not_eq_true', Bool.not_eq_false] at allocated free
            have same : fullFirst = first := by
              rw [(Control.validate_eq valid).1, (Control.validate_eq full).1]
            subst same
            -- the new size is more pages, since it is more and both are whole pages
            have longer : count < fullCount := by
              have size := Control.validate_size valid
              have fullSize := Control.validate_size full
              have more := UInt64.lt_iff_toNat_lt.mp grows
              dsimp only at fullSize
              omega
            have sum : count + (fullCount - count) = fullCount := by omega
            refine .inr (.inl ⟨grows, fullFirst, count, fullCount - count,
              ⟨valid, fun i low high => ?_⟩,
              by rw [sum]; exact full, by omega, fun i low high => ?_, rfl⟩)
            · simpa [Block.isFree] using allPages_iff.mp allocated i low high
            · have here := allPages_iff.mp free i low (by omega)
              show (b.page i).status = stFree
              simpa [Block.isFree] using here
    · rename_i shrinks
      split
      · rename_i missing
        refine .inl ⟨⟨_, rfl⟩, fun i zeroed => ?_⟩
        obtain ⟨-, -, -, ⟨first', count', valid', allocated⟩, -⟩ := zeroed
        rw [valid] at valid'
        cases valid'
        simp only [Bool.not_eq_true', ← Bool.not_eq_true, allPages_iff] at missing
        exact missing fun j low high => by simpa [Block.isFree] using allocated j low high
      · rename_i all
        simp only [Bool.not_eq_true', Bool.not_eq_false] at all
        refine .inr (.inr ⟨nowhere, fun zero => empty (.inr zero), UInt64.not_lt.mp shrinks,
          ⟨first, count, valid, fun i low high => ?_⟩, rfl⟩)
        simpa [Block.isFree] using allPages_iff.mp all i low high

theorem mremap_meant (aligned : b.Aligned) (addr : Range) (newSize : UInt64) :
    (mremap addr newSize).AllOrNothing b ↔
      ∀ i, (mremap addr newSize).Zeroes b i → (b.page i).Honest := by
  rcases mremap_cases b addr newSize with ⟨⟨e, run⟩, none_⟩ |
    ⟨grows, first, count, more, allocated, full, some_, free, run⟩ |
    ⟨somewhere, some_, most, whole, run⟩
  · exact ⟨fun _ i zeroed => absurd zeroed (none_ i), fun _ => .refused run⟩
  · refine ⟨fun _ i zeroed => absurd zeroed.2.2.1 (UInt64.lt_asymm grows), fun _ => ?_⟩
    rw [allOrNothing_ok (show (mremap addr newSize).run b = _ from run), Block.setProtections_cells]
    exact .grow (Control.validate_spans aligned allocated.1) (Control.validate_spans aligned full)
      some_ free
  · obtain ⟨first, count, allocated⟩ := whole
    -- with nothing cut off there is no tail, and no page is one of it
    have less : ∀ {i}, b.Holds ⟨addr.start + newSize, addr.size - newSize⟩ i → newSize <
        addr.size := by
      rintro i ⟨first', count', ⟨valid, -⟩, -⟩
      have size := Control.validate_size valid
      have pos := (Control.validate_bounds valid).1
      dsimp only at size
      rw [UInt64.toNat_sub_of_le _ _ most] at size
      rw [UInt64.lt_iff_toNat_lt]
      omega
    have run : (mremap addr newSize).run b = _ := run
    have meant := zeroed_meant run fun {first' count'} tail t =>
      shrink_meant aligned allocated.1
        (less ⟨first', count', tail, Nat.le_refl _,
          Nat.lt_add_of_pos_right (Control.validate_bounds tail.1).1⟩) tail t
    refine meant.trans ⟨fun honest i zeroed => honest i zeroed.2.2.2.2, fun honest i holds => ?_⟩
    exact honest i ⟨somewhere, some_, less holds, ⟨first, count, allocated⟩, holds⟩

end MemCall

/-! ## Every reachable block -/

theorem Block.sealNow_addr (b : Block) : b.sealNow.2.addr = b.addr := by
  cases is_sealed : b.isSealed with
  | true => rw [sealNow, if_pos is_sealed]
  | false =>
    rw [sealNow_eq is_sealed]
    dsimp only [refreshAll]
    rw [refreshRange_toControl, sealing_toControl]

theorem Life.aligned {groupShift : Nat} {b : Block} (h : Life groupShift b) : b.Aligned := by
  induction h with
  | @new addr b made =>
    unfold Block.new at made
    split_ifs at made with unaligned
    cases made
    exact not_not.mp fun wrong => unaligned (.inl wrong)
  | @setup b s life ih =>
    rw [Control.Aligned, (s.lasting life.recorded).1]
    exact ih
  | @event b e _ ih =>
    rw [Control.Aligned, (e.same b).addr]
    exact ih
  | @sealNow b _ ih =>
    rw [Control.Aligned, b.sealNow_addr]
    exact ih

/-- Each memory call on each reachable block, for any range: it is refused with nothing changed,
or it changes the table as it is meant to, exactly if every page it zeroes that looks zero to
the records is zero. -/
theorem Life.calls_meant {groupShift : Nat} {b : Block} (h : Life groupShift b) (call : MemCall) :
    call.AllOrNothing b ↔ ∀ i, call.Zeroes b i → (b.page i).Honest := by
  have aligned := h.aligned
  cases call with
  | mmap addr prot arena noReplace zeroOverlap =>
    exact MemCall.mmap_meant aligned h.recorded addr prot arena noReplace zeroOverlap
  | mmapFixed addr prot noReplace zeroOverlap =>
    exact MemCall.mmapFixed_meant aligned addr prot noReplace zeroOverlap
  | mprotect addr prot =>
    exact ⟨fun _ i zeroed => absurd zeroed id, fun _ => MemCall.mprotect_meant aligned addr prot⟩
  | munmap addr => exact MemCall.munmap_meant aligned addr
  | madviseDontneed addr => exact MemCall.madviseDontneed_meant aligned addr
  | mremap addr newSize => exact MemCall.mremap_meant aligned addr newSize

theorem Block.gapped_holds {i : Nat} (holds : gapped.Holds (pagesAt 4 1) i) : i = 4 := by
  obtain ⟨first, count, ⟨valid, -⟩, low, high⟩ := holds
  have pages : gapped.validate (pagesAt 4 1) = some (4, 1) := by decide +kernel
  rw [pages] at valid
  cases valid
  omega

/-- A page that was never written is unmapped. -/
theorem Life.calls_meant_gapped : Life 0 Block.gapped ∧
    (MemCall.munmap (pagesAt 4 1)).AllOrNothing Block.gapped := by
  have life : Life 0 Block.gapped := (Built.setUp (.new (Option.some_get _).symm) _).life
  refine ⟨life, (calls_meant life _).mpr fun i zeroed => ?_⟩
  obtain rfl : i = 4 := Block.gapped_holds zeroed
  exact fun _ _ _ => rfl

/-- Two pages of one host page of 16 KiB, sealed: page 0 may be written and page 1 read. -/
def Block.halves : Block :=
  (((new (pagesAt 0 4) 2).get rfl).setUp
    [.activate, .op (.mmapFixed (pagesAt 0 1) .rw false false),
      .op (.mmapFixed (pagesAt 1 1) .r false false)]).sealNow.2

/-- Page 0 has been written, and page 1 may be written by now. -/
def Block.halvesSaved : Block :=
  Op.run (Op.run halves (.write 0 (.fill 1))) (.mprotect (pagesAt 1 1) .rw)

/-- Page 1 may only be read again, and then the state from before is loaded.  The protection of
neither page is another for it, so the host page stays writable, as it was for page 0 alone. -/
def Block.halvesLoaded : Block :=
  ((Op.run halvesSaved (.mprotect (pagesAt 1 1) .r)).loadState
    (halvesSaved.saveState.toOption.getD [])).2

/-- The guest writes page 1, and nothing hears of it. -/
def Block.halvesWritten : Block := Op.run halvesLoaded (.write 1 (.fill 7))

theorem Life.halves : Life 2 Block.halvesWritten := by
  have sealed_ : Life 2 Block.halves := .sealNow
      (Built.setUp (.new (Option.some_get _).symm) _).life
  have written := event (.op (.write 0 (.fill 1))) sealed_
  have saved := event (.op (.mprotect (pagesAt 1 1) .rw)) written
  have turned := event (.op (.mprotect (pagesAt 1 1) .r)) saved
  have loaded := event (.loadState (Block.halvesSaved.saveState.toOption.getD [])) turned
  exact event (.op (.write 1 (.fill 7))) loaded

theorem Block.halvesWritten_page : (halvesWritten.page 1).dirty = false ∧
    (halvesWritten.page 1).invisible = false ∧ (halvesWritten.page 1).snap = .zero ∧
    (halvesWritten.page 1).mem.val.head? = some 7 := by decide +kernel

theorem Block.halvesWritten_holds : halvesWritten.Holds (pagesAt 1 1) 1 := by
  refine ⟨1, 1, ⟨by decide +kernel, fun i low high => ?_⟩, by decide, by decide⟩
  obtain rfl : i = 1 := by omega
  decide +kernel

theorem Block.halvesWritten_not_honest : ¬ (halvesWritten.page 1).Honest := by
  intro honest
  obtain ⟨clean, visible, snap, written⟩ := halvesWritten_page
  have zero : PageBytes.zero.val.head? = some 0 := rfl
  rw [honest clean visible snap, zero] at written
  exact absurd (Option.some.inj written) (by decide)

/-- Page 1 is clean to the records and has a zero baseline, so `munmap` leaves in it what the
guest wrote. -/
theorem Life.call_not_meant : ∃ b, Life 2 b ∧ ∃ call : MemCall, ¬ call.AllOrNothing b := by
  refine ⟨Block.halvesWritten, halves, .munmap (pagesAt 1 1), ?_⟩
  rw [MemCall.munmap_meant halves.aligned]
  intro honest
  exact Block.halvesWritten_not_honest (honest 1 Block.halvesWritten_holds)

/-! ## Keeping or shrinking -/

/-- What is left of a range after its first `newSize` bytes, if the sum does not wrap. -/
theorem Control.validate_rest {c : Control} (aligned : c.Aligned) {r : Range} {newSize : UInt64}
    {first count : Nat} (valid : c.validate r = some (first, count))
    (whole : newSize = alignDown newSize) (less : newSize < r.size)
    (fits : r.start.toNat + newSize.toNat < 2 ^ 64) :
    c.validate ⟨r.start + newSize, r.size - newSize⟩ =
      some (first + newSize.toNat / 4096, count - newSize.toNat / 4096) := by
  have pages := (eq_alignDown_iff newSize).mp whole
  have base := (eq_alignDown_iff c.addr.start).mp aligned
  have place := validate_iff.mp valid
  rw [UInt64.lt_iff_toNat_lt] at less
  rw [validate_iff]
  dsimp only
  rw [UInt64.toNat_add, Nat.mod_eq_of_lt fits,
    UInt64.toNat_sub_of_le _ _ (UInt64.le_iff_toNat_le.mpr (Nat.le_of_lt less))]
  omega

/-- The tail that `munmap` is called for: it is there only if something is cut off. -/
theorem MemCall.mremap_tail {b : Block} (aligned : b.Aligned) {addr : Range} {newSize : UInt64}
    {first count : Nat} (allocated : b.Allocated addr first count)
    (whole : newSize = alignDown newSize) (most : newSize ≤ addr.size) {first' count' : Nat}
    (tail : b.Allocated ⟨addr.start + newSize, addr.size - newSize⟩ first' count') :
    newSize < addr.size ∧ addr.start.toNat + newSize.toNat < 2 ^ 64 ∧
      first' = first + newSize.toNat / 4096 ∧ first' + count' = first + count := by
  have size := Control.validate_size tail.1
  have pos := (Control.validate_bounds tail.1).1
  dsimp only at size
  rw [UInt64.toNat_sub_of_le _ _ most] at size
  have less : newSize < addr.size := by
    rw [UInt64.lt_iff_toNat_lt]
    omega
  have start := Control.validate_tail allocated.1 less tail.1
  have fits : addr.start.toNat + newSize.toNat < 2 ^ 64 := by
    rw [← start]
    exact UInt64.toNat_lt _
  have rest := Control.validate_rest aligned allocated.1 whole less fits
  rw [tail.1] at rest
  have total := Control.validate_size allocated.1
  cases rest
  exact ⟨less, fits, rfl, by omega⟩

/-- A mapping kept or shrunk: the call answers its start, its first `newSize` bytes are as they
were, and the rest of it is free and zero, exactly if some of it is cut off, the range is not
at address 0 and does not wrap, and what is cut off and looks zero to the records is zero. -/
theorem Life.mremap_shrinks {groupShift : Nat} {b : Block} (h : Life groupShift b) {addr : Range}
    {newSize : UInt64} {first count : Nat} (allocated : b.Allocated addr first count)
    (whole : newSize = alignDown newSize) (some_ : newSize ≠ 0) (most : newSize ≤ addr.size) :
    (∃ c, b.mremap addr newSize = (.ok addr.start, c) ∧ ∀ i, first ≤ i → i < first + count →
        c.cells i = if i < first + newSize.toNat / 4096 then b.cells i else ⟨stFree, .zero⟩) ↔
    newSize < addr.size ∧ addr.start ≠ 0 ∧ addr.start.toNat + newSize.toNat < 2 ^ 64 ∧
      ∀ i, first + newSize.toNat / 4096 ≤ i → i < first + count → (b.page i).Honest := by
  have aligned := h.aligned
  have shrunk := @MemCall.mremap_tail b aligned addr newSize first count allocated whole most
  constructor
  · rintro ⟨c, run, cells⟩
    rcases MemCall.mremap_cases b addr newSize with ⟨⟨e, refused⟩, -⟩ | ⟨grows, -⟩ |
      ⟨somewhere, -, -, -, unmapped⟩
    · rw [refused] at run
      cases run
    · exact absurd grows (UInt64.not_lt.mpr most)
    · rw [unmapped] at run
      rcases b.munmapImpl_cases ⟨addr.start + newSize, addr.size - newSize⟩ false with
        ⟨⟨e, refused⟩, -⟩ | ⟨first', count', tail, freed⟩
      · rw [refused] at run
        cases run
      · rw [freed] at run
        cases run
        obtain ⟨less, fits, rfl, sum⟩ := shrunk tail
        refine ⟨less, somewhere, fits, fun i low high => ?_⟩
        have cell := cells i (by omega) high
        rw [if_neg (by omega), Block.freePages_cells, if_pos ⟨low, by omega⟩] at cell
        exact (Page.left_eq_zero _).mp (congrArg PageCell.mem cell)
  · rintro ⟨less, somewhere, fits, honest⟩
    have pages := (eq_alignDown_iff newSize).mp whole
    have total := Control.validate_size allocated.1
    have shorter := UInt64.lt_iff_toNat_lt.mp less
    have tail : b.Allocated ⟨addr.start + newSize, addr.size - newSize⟩
        (first + newSize.toNat / 4096) (count - newSize.toNat / 4096) :=
      ⟨Control.validate_rest aligned allocated.1 whole less fits, fun i low high =>
        allocated.2 i (by omega) (by omega)⟩
    have cut : b.Holds ⟨addr.start + newSize, addr.size - newSize⟩
        (first + newSize.toNat / 4096) := ⟨_, _, tail, Nat.le_refl _, by omega⟩
    rcases MemCall.mremap_cases b addr newSize with ⟨-, quiet⟩ | ⟨grows, -⟩ | ⟨-, -, -, -, unmapped⟩
    · exact absurd ⟨somewhere, some_, less, ⟨first, count, allocated⟩, cut⟩ (quiet _)
    · exact absurd grows (UInt64.not_lt.mpr most)
    · rcases b.munmapImpl_cases ⟨addr.start + newSize, addr.size - newSize⟩ false with
        ⟨-, none_⟩ | ⟨first', count', tail', freed⟩
      · exact absurd cut (none_ _)
      · obtain ⟨-, -, rfl, sum⟩ := shrunk tail'
        refine ⟨_, by rw [unmapped, freed]; rfl, fun i low high => ?_⟩
        rw [Block.freePages_cells]
        by_cases kept : i < first + newSize.toNat / 4096
        · rw [if_pos kept, if_neg (by omega)]
        · rw [if_neg kept, if_pos (by omega), (Page.left_eq_zero _).mpr (honest i (by omega) high)]
          rfl

/-- Two pages, the second of which is cut off. -/
def Block.pair : Block :=
  ((new (pagesAt 0 2) 0).get rfl).setUp [.op (.mmapFixed (pagesAt 0 2) .rw false false)]

theorem Block.pair_allocated : pair.Allocated (pagesAt 0 2) 0 2 := by
  refine ⟨by decide +kernel, fun i _ high => ?_⟩
  rcases (show i = 0 ∨ i = 1 by omega) with rfl | rfl
  · decide +kernel
  · decide +kernel

theorem Block.pair_life : Life 0 pair := (Built.setUp (.new (Option.some_get _).symm) _).life

theorem Life.mremap_shrinks_pair : ∃ c,
    Block.pair.mremap (pagesAt 0 2) 0x1000 = (.ok 0x100000000, c) ∧
      c.cells 1 = ⟨stFree, .zero⟩ := by
  have half : (0x1000 : UInt64) = alignDown 0x1000 := by decide
  obtain ⟨c, run, cells⟩ := (mremap_shrinks Block.pair_life Block.pair_allocated
    half (by decide) (by decide)).mpr
      ⟨by decide, by decide, by decide, fun i low high => by
        obtain rfl : i = 1 := by
          have : 0 + 1 ≤ i := low
          omega
        exact fun _ _ _ => rfl⟩
  exact ⟨c, run, cells 1 (by decide) (by decide)⟩

/-- A mapping that is to keep its size is refused. -/
theorem Life.mremap_keeps_refused : Life 0 Block.pair ∧ Block.pair.Allocated (pagesAt 0 2) 0 2 ∧
    Block.pair.mremap (pagesAt 0 2) 0x2000 = (.error .einval, Block.pair) :=
  ⟨Block.pair_life, Block.pair_allocated, rfl⟩

/-! ## Accesses to the table -/

/-- On a 4 KiB host, whatever went before, a page is read and a write is let through just if its
status permits it, and nothing else in the table changes. -/
theorem Life.accesses {b : Block} (h : Life 0 b) (swapped : b.swappedIn = true) (i : Nat)
    (f : PageBytes → PageBytes) :
    b.guestLoad i = (if i < b.npages ∧ statusProt (b.page i).status ≠ .none then
      some (b.page i).mem else none) ∧
    (b.guestStore i f).1 = decide (i < b.npages ∧ statusTracked (b.page i).status = true) ∧
    (b.guestStore i f).2.cells = if (b.guestStore i f).1 then
      Function.update b.cells i ⟨(b.page i).status, f (b.page i).mem⟩ else b.cells := by
  have guarded := h.guarded
  constructor
  · rw [Block.guestLoad, Control.hostPage_one guarded.shift]
    refine if_congr (and_congr_right fun inside => not_congr ?_) rfl rfl
    exact (guarded.shown rfl swapped i inside).trans (Page.nativeProt_eq_none _)
  · by_cases allowed : i < b.npages ∧ statusTracked (b.page i).status = true
    · obtain ⟨wrote, core⟩ := guarded.guestStore_ok allowed.1 swapped allowed.2 f
      rw [wrote]
      refine ⟨(decide_eq_true allowed).symm, funext fun j => ?_⟩
      rw [Block.cells, Page.cell_eq, core, if_pos rfl, Function.update_apply]
      split <;> rfl
    · rw [guarded.guestStore_refused fun all => allowed ⟨all.1, all.2.2⟩]
      exact ⟨(decide_eq_false allowed).symm, rfl⟩

theorem Life.accesses_pair : (Block.pair.activate.guestStore 1 fun _ => .fill 9).1 = true :=
  (accesses (.setup .activate Block.pair_life) (by decide +kernel) 1 _).2.1.trans
  (by decide +kernel)

end MiniBox
