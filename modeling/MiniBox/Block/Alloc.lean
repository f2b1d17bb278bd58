import MiniBox.Block.Arena

/-!
# The memory calls

`mmap`, `mprotect`, `munmap`, `madvise` and `mremap` on a block, with what the
loader does before the seal: `mb_block_new`, activation, invisible pages and
copies from outside.  Every call answers an error number and leaves the block
as it was, or goes through.  Two operations do all the work: `setProtections`
gives a run of pages one status, and `freePages` zeroes a run of pages and keeps
or frees it.

The search for free pages, `findFreePages`, crosses a group of 512 pages in one
step when its count says all or none of them are free.
-/

namespace MiniBox

open Lib

/-! ## Construction -/

/-- The block `mb_block_new` makes on a host whose page is `2 ^ groupShift`
machine pages: every page free and reading zero, nothing mapped. -/
def Block.new (addr : Range) (groupShift : Nat) : Option Block :=
  if addr.start ≠ alignDown addr.start ∨ addr.size ≠ alignDown addr.size then none
  else if addr.start &&& 0xffffffff ≠ 0 then none
  else
    let npages := (addr.size >>> 12).toNat
    some
      { addr, groupShift
        page := fun _ => {}
        shared :=
          { groupFree := fun g => min (npages - g <<< groupShiftFree) (1 <<< groupShiftFree) }
        os := fun _ => .none }

def Block.activate (b : Block) : Block :=
  if b.active then b
  else
    let b := if b.swappedIn then b else { b with swappedIn := true }.refreshAll
    { b with active := true }

/-! ## Status and zeroing -/

/-- One status for a run of pages, told to the OS. -/
def Block.setProtections (b : Block) (start count : Nat) (status : UInt8) : Block :=
  let b := b.onPages start count fun _ => epochNoteStatusChange b.epochActive status
  let b := b.onPages start count fun i => noteStatus i status
  b.refreshRange start count

/-- A page is zeroed unless it is known to be zero: clean, with a zero baseline. -/
def zeroPage (x : Track) : Track :=
  if !x.page.dirty && !x.page.invisible && x.page.snap == .zero then x
  else { x with page := { x.page with mem := .zero } }

@[simp] theorem zeroPage_page (x : Track) : (zeroPage x).page =
      { x.page with
        mem := if !x.page.dirty && !x.page.invisible && x.page.snap == .zero then x.page.mem
          else .zero } := by
  unfold zeroPage
  split_ifs <;> rfl

/-- What `free_pages` does to one page: its copies are taken, it is zeroed, and it
stays dirty only against a baseline that is not zero. -/
def freePage (planActive epochActive : Bool) (i : Nat) (x : Track) : Track :=
  let x := planCapture planActive i x
  let x := maybeSnapshot x
  let x := epochNoteStatusChange epochActive stFree x
  let x := zeroPage x
  setDirty (!x.page.invisible && x.page.snap != .zero) x

def Block.freePages (b : Block) (start count : Nat) (adviseOnly : Bool) : Block :=
  let b := b.onPages start count (freePage b.planActive b.epochActive)
  if adviseOnly then b.refreshRange start count else b.setProtections start count stFree

/-! ## mmap, mprotect, munmap -/

def Block.isFree (b : Block) (i : Nat) : Bool := (b.page i).status == stFree

/-- Every page of the run satisfies `p`. -/
def allPages (start count : Nat) (p : Nat → Bool) : Bool := (List.range' start count).all p

/-- The stretches of allocated pages from `i` up to `last`, zeroed one by one. -/
def Block.zeroOverlap (last : Nat) : (fuel : Nat) → (i : Nat) → Block → Block
  | 0, _, b => b
  | fuel + 1, i, b =>
    if last ≤ i then b
    else if b.isFree i then zeroOverlap last fuel (i + 1) b
    else
      let j := firstFrom (fun j => !b.isFree j) (last - i) i
      zeroOverlap last fuel j (b.freePages i (j - i) true)

def Block.mmapFixed (b : Block) (addr : Range) (prot : Prot) (noReplace zeroOverlap : Bool) :
    Except Errno Unit × Block :=
  match b.validate addr with
  | none => (.error .einval, b)
  | some (start, count) =>
    if noReplace && !allPages start count b.isFree then (.error .eexist, b)
    else
      let b := if zeroOverlap then b.zeroOverlap (start + count) count start else b
      (.ok (), b.setProtections start count (protStatus prot))

def Block.mprotect (b : Block) (addr : Range) (prot : Prot) : Except Errno Unit × Block :=
  match b.validate addr with
  | none => (.error .einval, b)
  | some (start, count) =>
    if !allPages start count fun i => !b.isFree i then (.error .enomem, b)
    else (.ok (), b.setProtections start count (protStatus prot))

/-- `munmap_impl`: `munmap`, or `madvise(MADV_DONTNEED)` when the pages stay
allocated. -/
def Block.munmapImpl (b : Block) (addr : Range) (adviseOnly : Bool) : Except Errno Unit × Block :=
  match b.validate addr with
  | none => (.error .einval, b)
  | some (start, count) =>
    if !allPages start count fun i => !b.isFree i then (.error .einval, b)
    else (.ok (), b.freePages start count adviseOnly)

def Block.munmap (b : Block) (addr : Range) : Except Errno Unit × Block := b.munmapImpl addr false

def Block.madviseDontneed (b : Block) (addr : Range) : Except Errno Unit × Block :=
  b.munmapImpl addr true

/-! ## The search for free pages -/

/-- `MB_GROUP_PAGES`. -/
def freeGroup : Nat := 1 <<< groupShiftFree

/-- `MB_BIG_REQUEST_PAGES`: requests of this size are served from the top. -/
def bigRequestPages : Nat := 4096

/-- The whole group that starts at page `first` lies in `[lo, hi)` and its count
of free pages is `count`. -/
def Block.groupCounts (b : Block) (count first lo hi : Nat) : Bool :=
  first % freeGroup == 0 && decide (lo ≤ first) && decide (first + freeGroup ≤ hi) &&
    b.shared.groupFree (first >>> groupShiftFree) == count

def Block.groupTaken (b : Block) (first lo hi : Nat) : Bool := b.groupCounts 0 first lo hi

def Block.groupAllFree (b : Block) (first lo hi : Nat) : Bool := b.groupCounts freeGroup first lo hi

def Block.mapFree (b : Block) (i : Nat) : Bool := (b.page i).statusMap == stFree

/-- The highest run of `npages` free pages below `i`; `[i, runEnd)` is free. -/
def Block.findHigh (b : Block) (lo hi npages : Nat) : (fuel i runEnd : Nat) → Option Nat
  | 0, _, _ => none
  | fuel + 1, i, runEnd =>
    if i ≤ lo then none
    else if decide (freeGroup ≤ i) && b.groupTaken (i - freeGroup) lo hi then
      b.findHigh lo hi npages fuel (i - freeGroup) (i - freeGroup)
    else if decide (freeGroup ≤ i) && decide (runEnd - (i - freeGroup) < npages) &&
        b.groupAllFree (i - freeGroup) lo hi then
      b.findHigh lo hi npages fuel (i - freeGroup) runEnd
    else if !b.mapFree (i - 1) then b.findHigh lo hi npages fuel (i - 1) (i - 1)
    else if npages ≤ runEnd - (i - 1) then some (runEnd - npages)
    else b.findHigh lo hi npages fuel (i - 1) runEnd

/-- Where the free run that `j` is in ends. -/
def Block.freeRunEnd (b : Block) (lo hi : Nat) : (fuel j : Nat) → Nat
  | 0, j => j
  | fuel + 1, j =>
    if decide (j < hi) && b.mapFree j then
      if b.groupAllFree j lo hi then b.freeRunEnd lo hi fuel (j + freeGroup)
      else b.freeRunEnd lo hi fuel (j + 1)
    else j

/-- The shortest run of at least `npages` free pages, the lowest of those;
`best` is its start and length so far. -/
def Block.findLow (b : Block) (lo hi npages : Nat) :
    (fuel i : Nat) → (best : Option (Nat × Nat)) → Option Nat
  | 0, _, best => best.map Prod.fst
  | fuel + 1, i, best =>
    if hi ≤ i then best.map Prod.fst
    else if b.mapFree i then
      let j := b.freeRunEnd lo hi (hi - i) i
      let shorter := best.all fun run => decide (j - i < run.2)
      let best := if decide (npages ≤ j - i) && shorter then some (i, j - i) else best
      b.findLow lo hi npages fuel j best
    else if b.groupTaken i lo hi then b.findLow lo hi npages fuel (i + freeGroup) best
    else b.findLow lo hi npages fuel (i + 1) best

def Block.findFreePages (b : Block) (arenaStart arenaCount npages : Nat) : Option Nat :=
  let hi := arenaStart + arenaCount
  if bigRequestPages ≤ npages then b.findHigh arenaStart hi npages arenaCount hi hi
  else b.findLow arenaStart hi npages arenaCount arenaStart none

/-- The address of page `i`. -/
def Control.pageAddr (b : Control) (i : Nat) : UInt64 := b.addr.start + (UInt64.ofNat i <<< 12)

def Block.mmap (b : Block) (addr : Range) (prot : Prot) (arena : Range)
    (noReplace zeroOverlap : Bool) : Except Errno UInt64 × Block :=
  if addr.size = 0 then (.error .einval, b)
  else if addr.start = 0 then
    if addr.size ≠ alignDown addr.size then (.error .einval, b)
    else
      match b.validate arena with
      | none => (.error .einval, b)
      | some (arenaStart, arenaCount) =>
        let npages := (addr.size >>> 12).toNat
        match b.findFreePages arenaStart arenaCount npages with
        | none => (.error .enomem, b)
        | some start =>
          (.ok (b.pageAddr start), b.setProtections start npages (protStatus prot))
  else
    match b.mmapFixed addr prot noReplace zeroOverlap with
    | (.error e, b) => (.error e, b)
    | (.ok (), b) => (.ok addr.start, b)

/-! ## mremap -/

/-- `mremap_impl`: growing needs the pages after the range free, shrinking unmaps
the tail. -/
def Block.mremap (b : Block) (addr : Range) (newSize : UInt64) : Except Errno UInt64 × Block :=
  if addr.size = 0 ∨ newSize = 0 then (.error .einval, b)
  else if addr.start = 0 then (.error .enosys, b)
  else
    match b.validate addr with
    | none => (.error .einval, b)
    | some (start, count) =>
      if newSize > addr.size then
        match b.validate ⟨addr.start, newSize⟩ with
        | none => (.error .einval, b)
        | some (fullStart, fullCount) =>
          if !allPages start count fun i => !b.isFree i then (.error .einval, b)
          else if !allPages (start + count) (fullStart + fullCount - (start + count)) b.isFree then
            (.error .eexist, b)
          else
            (.ok addr.start,
              b.setProtections (start + count) (fullCount - count) (b.page start).status)
      else if !allPages start count fun i => !b.isFree i then (.error .einval, b)
      else
        match b.munmapImpl ⟨addr.start + newSize, addr.size - newSize⟩ false with
        | (.error e, b) => (.error e, b)
        | (.ok (), b) => (.ok addr.start, b)

/-- The host writes a page through the mirror, where no fault tells a pending plan: the
plan's copy is taken, the page is dirty and not hot. -/
def overwritePage (planActive : Bool) (i : Nat) (bytes : PageBytes → PageBytes) (x : Track) :
    Track :=
  let x := pageCool (setDirty true (planCapture planActive i x))
  { x with page := { x.page with mem := bytes x.page.mem } }

/-- One page of a mapping that moves: page `dest` takes the status, the
invisibility and the bytes of page `source`, or zeros past the old mapping's
end. -/
def Block.movePage (b : Block) (source dest : Nat) (carries : Bool) : Block :=
  let b := b.setProtections dest 1 (b.page source).status
  let p := b.page source
  b.onPage dest fun x =>
    overwritePage b.planActive dest (fun _ => if carries then p.mem else .zero)
      { x with page := { x.page with invisible := p.invisible } }

/-- `mremap_move_impl`: to the best free run of the arena, page by page, and the
old range is unmapped. -/
def Block.mremapMove (b : Block) (addr : Range) (newSize : UInt64) (arena : Range) :
    Except Errno UInt64 × Block :=
  match b.validate addr with
  | none => (.error .einval, b)
  | some (start, count) =>
    if newSize = 0 ∨ newSize ≠ alignDown newSize then (.error .einval, b)
    else if !allPages start count fun i => !b.isFree i then (.error .einval, b)
    else
      match b.validate arena with
      | none => (.error .einval, b)
      | some (arenaStart, arenaCount) =>
        let npages := (newSize >>> 12).toNat
        match b.findFreePages arenaStart arenaCount npages with
        | none => (.error .enomem, b)
        | some newStart =>
          let moved := forRange 0 npages
            (fun b k =>
              b.movePage (if k < count then start + k else start + count - 1)
                (newStart + k) (k < count)) b
          (.ok (b.pageAddr newStart), (moved.munmapImpl addr false).2)

def Block.mremapMaymove (b : Block) (addr : Range) (newSize : UInt64) (arena : Range)
    (maymove : Bool) : Except Errno UInt64 × Block :=
  if !maymove || decide (newSize ≤ addr.size) then b.mremap addr newSize
  else
    match b.mremap addr newSize with
    | (.error .eexist, b) => b.mremapMove addr newSize arena
    | answer => answer

/-! ## Before the seal -/

def Block.markInvisible (b : Block) (addr : Range) : Except Errno Unit × Block :=
  if b.isSealed then (.error .einval, b)
  else
    match b.validate addr with
    | none => (.error .einval, b)
    | some (start, count) =>
      let b := b.onPages start count fun _ x =>
        let x := setDirty true x
        { x with page := { x.page with invisible := true } }
      (.ok (), b.refreshRange start count)

/-- Page `i` after `src` was copied to offset `off` of the block. -/
def PageBytes.patch (old : PageBytes) (src : Bytes) (off i : Nat) : PageBytes :=
  ⟨old.val.mapIdx fun k byte =>
      let at_ := i * pageSize + k
      if off ≤ at_ then (src[at_ - off]?).getD byte else byte,
    by rw [List.length_mapIdx]; exact old.property⟩

def Block.copyFromExternal (b : Block) (src : Bytes) (start : UInt64) : Except Errno Unit × Block :=
  match b.validate (Range.alignExpand ⟨start, UInt64.ofNat src.length⟩) with
  | none => (.error .einval, b)
  | some (first, count) =>
    let b := b.onPages first count fun i =>
      overwritePage b.planActive i fun old => old.patch src (start - b.addr.start).toNat i
    (.ok (), b)

end MiniBox
