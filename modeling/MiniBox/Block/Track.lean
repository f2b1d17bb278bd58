import MiniBox.Block.Page
import Mathlib.Tactic.Cases

/-!
# What the tracker does to one page

The functions of `memblock.c` that work on one page and on the words of the
block shared by all pages: the counts, the free counts of the groups and the
buffer of a planned state.  A `Track` is a page beside those `Shared` words,
and each function here is a `Track → Track`; the block runs it at an index
with `Block.onPage`.

The copies made into a planned state's buffer are kept as a list, oldest
first.  The buffer is written by them alone, so what it holds is read off the
list (`Plan.slot` in the planned-state module).

Every function has one equation, named after it with `_page`, that says what
it does to the page as a whole record.  Later proofs use these and do not look
inside the functions.
-/

namespace MiniBox

open Lib

/-- `HOT_AFTER`: epochs written in a row before a page goes hot. -/
def hotAfter : UInt8 := 3

/-- `COLD_AFTER`: epochs unchanged in a row before a hot page cools. -/
def coldAfter : UInt8 := 8

/-- `HOT_MOST`: how many pages may be hot. -/
def hotMost : Nat := 32768

/-- `MB_GROUP_SHIFT`: the stride of `find_free_pages`. -/
def groupShiftFree : Nat := 9

/-- One page copied into the buffer of a planned state. -/
structure Copy where
  page : Nat
  slot : UInt32
  bytes : PageBytes
  deriving DecidableEq

/-- The words of a block that every page shares. -/
structure Shared where
  nhot : Nat := 0
  epochNdirty : Nat := 0
  epochNstat : Nat := 0
  groupFree : Nat → Nat := fun _ => 0
  copies : List Copy := []

/-- A page beside the shared words. -/
structure Track where
  page : Page
  shared : Shared

/-! ## Protections noted -/

/-- A page is unheld when it was just mapped writable; a page that is writable
is not held. -/
def notProtected (prot : Prot) (p : Page) : Bool := prot.writable && !p.hot && !p.invisible

def noteProt (prot : Prot) (x : Track) : Track :=
  { x with
    page :=
      { x.page with
        unheldBit := notProtected prot x.page
        held := x.page.held && !prot.writable } }

/-- The fault handler's note, after it made the page writable. -/
def noteUnheld (x : Track) : Track :=
  { x with page := { x.page with unheldBit := x.page.unheldBit || !x.page.hot } }

/-! ## Hot pages -/

def pageCool (x : Track) : Track :=
  if x.page.hot then
    { page :=
        { x.page with hot := false, heat := 0, shadow := none, hotBit := false, unheldBit := true }
      shared := { x.shared with nhot := x.shared.nhot - 1 } }
  else x

/-- Make a page hot if it may be: tracked, dirty, mapped writable right now,
and no stack. -/
def pageHeat (x : Track) : Track :=
  let p := x.page
  if p.hot || p.invisible || !p.dirty then x
  else if p.status ≠ stRW ∧ p.status ≠ stRWX then x
  else if !p.unheldBit || decide (hotMost ≤ x.shared.nhot) then x
  else
    { page :=
        { p with shadow := some p.mem, hot := true, heat := 0, hotBit := true, unheldBit := false }
      shared := { x.shared with nhot := x.shared.nhot + 1 } }

/-! ## The epoch -/

/-- A page enters the open epoch's data list. -/
def markEpoch (x : Track) : Track :=
  { page := { x.page with epochDirty := true, epochBit := true }
    shared := { x.shared with epochNdirty := x.shared.epochNdirty + 1 } }

def epochCapture (epochActive : Bool) (x : Track) : Track :=
  let x := { x with page := { x.page with held := false } }
  if !epochActive || !x.page.epochTracks || x.page.epochDirty then x else markEpoch x

/-- A page enters the open epoch's status list. -/
def markStat (x : Track) : Track :=
  if x.page.statBit then x
  else
    { page := { x.page with statBit := true }
      shared := { x.shared with epochNstat := x.shared.epochNstat + 1 } }

/-- A page whose allocation changes enters the epoch as a written one does. -/
def epochNoteStatusChange (epochActive : Bool) (status : UInt8) (x : Track) : Track :=
  if !epochActive || x.page.status == status then x
  else
    let x := markStat x
    if x.page.invisible then x
    else if x.page.epochTracks then epochCapture epochActive x
    else if x.page.epochDirty then x
    else markEpoch x

/-- What a hot page did this epoch, by looking: the body of `get_hot_epoch`. -/
def getHotEpochPage (x : Track) : Track :=
  if x.page.hotBit then
    if x.page.shadow = some x.page.mem then
      let x := { x with page := { x.page with heat := x.page.heat + 1 } }
      if coldAfter ≤ x.page.heat then pageCool x else x
    else
      let x := { x with page := { x.page with heat := 0 } }
      if x.page.epochDirty then x else markEpoch x
  else x

/-- The epochs a page was written in a row, this one included. -/
def Page.nextHeat (epochNo : UInt16) (p : Page) : UInt8 :=
  if p.seen = epochNo - 1 then (if p.heat < 255 then p.heat + 1 else p.heat) else 1

/-- A page written in this epoch and the last is on its way to hot: the body of
`heat_written_pages`. -/
def heatWrittenPage (epochNo : UInt16) (x : Track) : Track :=
  if x.page.epochBit && !x.page.hot then
    let x := { x with page := { x.page with heat := x.page.nextHeat epochNo, seen := epochNo } }
    if hotAfter ≤ x.page.heat then pageHeat x else x
  else x

/-- Forget what the last epoch knew of the page: the body of `epoch_forget`,
the bitmaps being cleared whole. -/
def epochClearPage (x : Track) : Track :=
  { x with
    page :=
      { x.page with
        epochDirty := if x.page.epochBit then false else x.page.epochDirty
        epochBit := false
        statBit := false } }

/-! ## Status, dirtiness and the baseline -/

/-- The free pages of each group once page `i` goes from one status to another. -/
def countFree (i : Nat) (was status : UInt8) (free : Nat → Nat) : Nat → Nat :=
  let g := i >>> groupShiftFree
  if was = status then free
  else if was = stFree then Function.update free g (free g - 1)
  else if status = stFree then Function.update free g (free g + 1)
  else free

def noteStatus (i : Nat) (status : UInt8) (x : Track) : Track :=
  let groupFree := countFree i x.page.status status x.shared.groupFree
  let x := { x with shared := { x.shared with groupFree } }
  let x := if x.page.hot && x.page.status != status then pageCool x else x
  { x with page := { x.page with status, statusMap := status } }

def setDirty (dirty : Bool) (x : Track) : Track :=
  let x := if !dirty && x.page.hot then pageCool x else x
  { x with page := { x.page with dirty, dirtyMap := dirty } }

/-- The baseline copy, taken before the first change. -/
def maybeSnapshot (x : Track) : Track :=
  if x.page.snap = .none then { x with page := { x.page with snap := .data x.page.mem } } else x

/-! ## The planned state's copy

`plan_take` on a page the plan owes copies it.  A page somebody else is copying is
theirs; a caller that waits goes on when they are done, so for it the copy is made, if
it was not yet, and the page let go. -/

def planCopyPage (i : Nat) (x : Track) : Track :=
  { x with
    shared := { x.shared with copies := x.shared.copies ++ [⟨i, x.page.planSlot, x.page.mem⟩] } }

/-- The page's copy is in the buffer. -/
def Shared.copied (s : Shared) (i : Nat) : Bool := s.copies.any fun copy => copy.page == i

def setPlanHold (hold : PlanHold) (x : Track) : Track :=
  { x with page := { x.page with planHold := hold } }

def planTake (wait : Bool) (i : Nat) (x : Track) : Track :=
  match x.page.planHold with
  | .owed => setPlanHold .free (planCopyPage i x)
  | .copying =>
    if wait then setPlanHold .free (if x.shared.copied i then x else planCopyPage i x) else x
  | .free => x

def planCapture (planActive : Bool) (i : Nat) (x : Track) : Track :=
  if planActive then planTake true i x else x

/-! ## What each function does to the page -/

@[simp] theorem noteProt_page (prot : Prot) (x : Track) : (noteProt prot x).page =
      { x.page with
        unheldBit := notProtected prot x.page
        held := x.page.held && !prot.writable } := rfl

@[simp] theorem noteUnheld_page (x : Track) :
    (noteUnheld x).page = { x.page with unheldBit := x.page.unheldBit || !x.page.hot } := rfl

@[simp] theorem pageCool_page (x : Track) : (pageCool x).page =
      { x.page with
        hot := false
        heat := if x.page.hot then 0 else x.page.heat
        shadow := if x.page.hot then none else x.page.shadow
        hotBit := x.page.hotBit && !x.page.hot
        unheldBit := x.page.unheldBit || x.page.hot } := by
  unfold pageCool
  cases hot : x.page.hot <;> ext <;> simp [hot]

/-- A page that `pageHeat` may make hot. -/
def Page.mayHeat (p : Page) : Prop :=
  p.hot = false ∧ p.invisible = false ∧ p.dirty = true ∧ (p.status = stRW ∨ p.status = stRWX) ∧
    p.unheldBit = true

/-- The page made hot. -/
def Page.heated (p : Page) : Page :=
  { p with shadow := some p.mem, hot := true, heat := 0, hotBit := true, unheldBit := false }

theorem pageHeat_page (x : Track) :
    (pageHeat x).page = x.page ∨ x.page.mayHeat ∧ (pageHeat x).page = x.page.heated := by
  unfold pageHeat Page.mayHeat Page.heated
  grind

@[simp] theorem epochCapture_page (epochActive : Bool) (x : Track) :
    (epochCapture epochActive x).page =
      { x.page with
        held := false
        epochDirty := x.page.epochDirty || (epochActive && x.page.epochTracks)
        epochBit :=
          x.page.epochBit || (epochActive && x.page.epochTracks && !x.page.epochDirty) } := by
  simp only [epochCapture, markEpoch, Page.epochTracks]
  grind

@[simp] theorem markStat_page (x : Track) :
    (markStat x).page = { x.page with statBit := true } := by
  unfold markStat
  cases stat : x.page.statBit <;> ext <;> simp [stat]

@[simp] theorem epochNoteStatusChange_page (epochActive : Bool) (status : UInt8) (x : Track) :
    (epochNoteStatusChange epochActive status x).page =
      let changes := epochActive && x.page.status != status
      { x.page with
        statBit := x.page.statBit || changes
        held := x.page.held && !(changes && x.page.epochTracks)
        epochDirty := x.page.epochDirty || (changes && !x.page.invisible)
        epochBit :=
          x.page.epochBit || (changes && !x.page.invisible && !x.page.epochDirty) } := by
  unfold epochNoteStatusChange
  cases active : epochActive
  · simp
  cases same : (x.page.status == status)
  · have differs : x.page.status ≠ status := by simpa using same
    simp only [markStat_page, markEpoch, Page.epochTracks]
    cases invisible : x.page.invisible <;> cases tracked : statusTracked x.page.status <;>
      cases dirty : x.page.epochDirty <;>
      simp [differs, dirty, invisible, tracked, Page.epochTracks]
  · obtain rfl : x.page.status = status := by simpa using same
    simp

@[simp] theorem getHotEpochPage_page (x : Track) : (getHotEpochPage x).page =
      if x.page.hotBit then
        if x.page.shadow = some x.page.mem then
          if coldAfter ≤ x.page.heat + 1 then
            (pageCool { x with page := { x.page with heat := x.page.heat + 1 } }).page
          else { x.page with heat := x.page.heat + 1 }
        else
          { x.page with
            heat := 0, epochDirty := true, epochBit := x.page.epochBit || !x.page.epochDirty }
      else x.page := by
  simp only [getHotEpochPage, markEpoch]
  grind

theorem heatWrittenPage_page (epochNo : UInt16) (x : Track) : ∃ heat seen,
      (heatWrittenPage epochNo x).page = { x.page with heat, seen } ∨
        x.page.mayHeat ∧ x.page.epochBit = true ∧
          (heatWrittenPage epochNo x).page = { x.page with heat, seen }.heated := by
  unfold heatWrittenPage
  by_cases written : (x.page.epochBit && !x.page.hot) = true
  · rw [if_pos written]
    refine ⟨x.page.nextHeat epochNo, epochNo, ?_⟩
    by_cases warm : hotAfter ≤ x.page.nextHeat epochNo
    · simp only [if_pos warm]
      rcases pageHeat_page
          { x with page := { x.page with heat := x.page.nextHeat epochNo, seen := epochNo } } with
        same | ⟨may, heated⟩
      · exact .inl same
      · exact .inr ⟨may, by simp_all, heated⟩
    · exact .inl (by simp [warm])
  · rw [if_neg written]
    exact ⟨x.page.heat, x.page.seen, .inl rfl⟩

@[simp] theorem epochClearPage_page (x : Track) : (epochClearPage x).page =
      { x.page with
        epochDirty := if x.page.epochBit then false else x.page.epochDirty
        epochBit := false
        statBit := false } := rfl

@[simp] theorem noteStatus_page (i : Nat) (status : UInt8) (x : Track) :
    (noteStatus i status x).page =
      let cools := x.page.hot && x.page.status != status
      { x.page with
        status, statusMap := status
        hot := x.page.hot && !cools
        heat := if cools then 0 else x.page.heat
        shadow := if cools then none else x.page.shadow
        hotBit := x.page.hotBit && !cools
        unheldBit := x.page.unheldBit || cools } := by
  simp only [noteStatus, pageCool]
  cases hot : x.page.hot <;> cases same : (x.page.status == status) <;> simp_all

@[simp] theorem setDirty_page (dirty : Bool) (x : Track) : (setDirty dirty x).page =
      let cools := x.page.hot && !dirty
      { x.page with
        dirty, dirtyMap := dirty
        hot := x.page.hot && !cools
        heat := if cools then 0 else x.page.heat
        shadow := if cools then none else x.page.shadow
        hotBit := x.page.hotBit && !cools
        unheldBit := x.page.unheldBit || cools } := by
  simp only [setDirty, pageCool]
  cases hot : x.page.hot <;> cases dirty <;> simp_all

@[simp] theorem maybeSnapshot_page (x : Track) : (maybeSnapshot x).page =
      { x.page with snap := if x.page.snap = .none then .data x.page.mem else x.page.snap } := by
  unfold maybeSnapshot
  split_ifs <;> rfl

/-- What is owed after a `plan_take`. -/
def PlanHold.taken (wait : Bool) : PlanHold → PlanHold
  | .free | .owed => .free
  | .copying => if wait then .free else .copying

@[simp] theorem planTake_page (wait : Bool) (i : Nat) (x : Track) :
    (planTake wait i x).page = { x.page with planHold := x.page.planHold.taken wait } := by
  obtain ⟨p, s⟩ := x
  unfold planTake PlanHold.taken setPlanHold planCopyPage
  cases hold : p.planHold with
  | free => simp only [← hold]
  | owed => rfl
  | copying =>
    cases wait with
    | true =>
      simp only [if_true]
      split_ifs <;> rfl
    | false => simp only [Bool.false_eq_true, if_false, ← hold]

@[simp] theorem planCapture_page (planActive : Bool) (i : Nat) (x : Track) :
    (planCapture planActive i x).page =
      { x.page with
        planHold :=
          if planActive then .free else x.page.planHold } := by
  unfold planCapture
  cases planActive with
  | false => rfl
  | true =>
    rw [if_pos rfl, planTake_page, if_pos rfl]
    cases x.page.planHold <;> rfl

end MiniBox
