import MiniBox.Lib.Bytes
import Mathlib.Tactic.SplitIfs

/-!
# One page of a memory block

The data of `minibox_internal.h`.  A `Page` is an `mb_page` together with what
the block keeps for that page elsewhere: its bits in the four bitmaps, its two
bytes in the packed maps, and its bytes in the always-writable mirror.  The
status stays a byte, because a state or a delta may carry any byte there.

`Page.nativeProt` is the protection the tracker wants a page to have.  Its one
consequence used everywhere is `Page.nativeProt_writable`: a page is wanted
writable exactly when it is a tracked page that `opens` and no planned state
holds it.
-/

namespace MiniBox

open Lib

/-- `MB_PAGESIZE`. -/
def pageSize : Nat := 4096

/-- The bytes of one machine page. -/
def PageBytes : Type := { bs : Bytes // bs.length = pageSize }

instance : DecidableEq PageBytes := inferInstanceAs (DecidableEq (Subtype _))

/-- A page of one byte repeated. -/
def PageBytes.fill (byte : UInt8) : PageBytes := ⟨List.replicate pageSize byte, by simp⟩

def PageBytes.zero : PageBytes := .fill 0

instance : Inhabited PageBytes := ⟨.zero⟩

theorem PageBytes.fill_inj {x y : UInt8} (h : fill x = fill y) : x = y := by
  have bytes : List.replicate pageSize x = List.replicate pageSize y := congrArg Subtype.val h
  exact (List.replicate_inj.mp bytes).2.resolve_left (by decide)

/-- The two pages start with different bytes. -/
theorem PageBytes.ne_of_head {p q : PageBytes} {x y : UInt8} (first : p.val.head? = some x)
    (second : q.val.head? = some y) (apart : x ≠ y) : p ≠ q := by
  rintro rfl
  rw [first] at second
  exact apart (Option.some.inj second)

/-- The answers an operation gives instead of a result. -/
inductive Errno where
  | einval | eio | enomem | eexist | enosys | enotsup | eagain | efault | etimedout
  | enoent | esrch | ebadf | eacces | ebusy | efbig | enospc | espipe | eafnosupport
  deriving DecidableEq, Repr

/-! ## Protections and status bytes -/

/-- `mb_prot`. -/
inductive Prot where
  | none | r | rw | rx | rwx | rwStack
  deriving DecidableEq, Repr

/-- `prot_writable`. -/
def Prot.writable : Prot → Bool
  | .rw | .rwx | .rwStack => true
  | .none | .r | .rx => false

def stFree : UInt8 := 0x00
def stNone : UInt8 := 0x20
def stR : UInt8 := 0x01
def stRW : UInt8 := 0x03
def stRX : UInt8 := 0x05
def stRWX : UInt8 := 0x07
def stRWStack : UInt8 := 0x13

def statusProt (s : UInt8) : Prot :=
  if s = stNone then .none
  else if s = stR then .r
  else if s = stRW then .rw
  else if s = stRX then .rx
  else if s = stRWX then .rwx
  else if s = stRWStack then .rwStack
  else .none

def protStatus : Prot → UInt8
  | .none => stNone
  | .r => stR
  | .rw => stRW
  | .rx => stRX
  | .rwx => stRWX
  | .rwStack => stRWStack

/-- A page the guest may write, so that the host must hear of its first write. -/
def statusTracked (s : UInt8) : Bool := s == stRW || s == stRWX || s == stRWStack

theorem statusProt_writable (s : UInt8) : (statusProt s).writable = statusTracked s := by
  unfold statusProt statusTracked
  split_ifs <;> simp_all [Prot.writable, stNone, stR, stRX, stRW, stRWX, stRWStack]

theorem statusTracked_ne_free {s : UInt8} (h : statusTracked s = true) : s ≠ stFree := by
  rintro rfl
  exact absurd h (by decide)

theorem protStatus_ne_free (prot : Prot) : protStatus prot ≠ stFree := by
  cases prot <;> decide

/-! ## The page record -/

/-- `snap_kind` with its `snap_data`. -/
inductive Snap where
  | none
  | zero
  | data (bytes : PageBytes)
  deriving DecidableEq

/-- `plan_hold`: 0, nothing owed; 1, owed to the planned state; 2, somebody is
copying it. -/
inductive PlanHold where
  | free | owed | copying
  deriving DecidableEq, Repr

@[ext]
structure Page where
  status : UInt8 := stFree
  dirty : Bool := false
  invisible : Bool := false
  snap : Snap := .zero
  /-- dirty, yet mapped read-only because nothing wrote it since it was held -/
  held : Bool := false
  epochDirty : Bool := false
  hot : Bool := false
  heat : UInt8 := 0
  seen : UInt16 := 0
  shadow : Option PageBytes := Option.none
  planHold : PlanHold := .free
  planSlot : UInt32 := 0
  epochBit : Bool := false
  statBit : Bool := false
  unheldBit : Bool := false
  hotBit : Bool := false
  /-- the page's byte of `status_map` -/
  statusMap : UInt8 := stFree
  /-- the page's byte of `dirty_map` -/
  dirtyMap : Bool := false
  /-- what the mirror shows -/
  mem : PageBytes := .zero

/-- The protection a page is to have: `mb_page_native_prot`. -/
def Page.nativeProt (p : Page) : Prot :=
  if p.status = stFree then .none
  else if p.planHold ≠ .free then
    match statusProt p.status with
    | .rwx => .rx
    | .rw | .rwStack => .r
    | asked => asked
  else if p.hot then statusProt p.status
  else
    let clean := !p.dirty || p.held
    if p.status = stRW ∧ clean then .r
    else if p.status = stRWX ∧ clean then .rx
    else if p.status = stRWStack then (if clean then .r else .rw)
    else statusProt p.status

/-- A tracked page that nothing but a planned state would keep read-only. -/
def Page.opens (p : Page) : Bool :=
  statusTracked p.status && (p.hot || (p.dirty && !p.held))

/-- The pages an epoch tracks: writable to the guest, and machine state. -/
def Page.epochTracks (p : Page) : Bool := !p.invisible && statusTracked p.status

theorem Page.nativeProt_writable (p : Page) :
    p.nativeProt.writable = (p.opens && p.planHold == .free) := by
  have asked := statusProt_writable p.status
  unfold nativeProt opens
  by_cases free : p.status = stFree
  · rw [if_pos free, free]
    rfl
  rw [if_neg free]
  by_cases hold : p.planHold = .free
  · simp only [hold, ne_eq, not_true_eq_false, if_false, BEq.rfl, Bool.and_true]
    cases hot : p.hot
    · by_cases isRW : p.status = stRW
      · cases p.dirty <;> cases p.held <;> simp [isRW] <;> rfl
      by_cases isRWX : p.status = stRWX
      · cases p.dirty <;> cases p.held <;> simp [isRWX] <;> rfl
      by_cases isStack : p.status = stRWStack
      · cases p.dirty <;> cases p.held <;> simp [isStack] <;> rfl
      · have untracked : statusTracked p.status = false := by
          simp [statusTracked, isRW, isRWX, isStack]
        simp [isRW, isRWX, isStack, asked, untracked]
    · simp [asked]
  · rw [if_pos hold]
    have owed : (p.planHold == PlanHold.free) = false := by simpa using hold
    rw [owed, Bool.and_false]
    cases statusProt p.status <;> rfl

/-- The tracker takes writing away and nothing else. -/
theorem Page.nativeProt_eq_none (p : Page) : p.nativeProt = .none ↔ statusProt p.status =
    .none := by
  have stack : statusProt stRWStack = .rwStack := rfl
  unfold nativeProt
  split
  next free =>
    rw [free]
    exact ⟨fun _ => rfl, fun _ => rfl⟩
  · split
    · cases statusProt p.status <;> simp
    · dsimp only
      split_ifs with hot rw_ rwx isStack clean
      · rfl
      · rw [rw_.1]
        decide
      · rw [rwx.1]
        decide
      · rw [isStack]
        decide
      · rw [isStack]
        decide
      · rfl

/-- The protection is read off the status, the plan's hold, and what keeps a
page that is not hot closed. -/
theorem Page.nativeProt_congr {p q : Page} (status : q.status = p.status)
    (hold : q.planHold = p.planHold) (hot : q.hot = p.hot)
    (clean : p.hot = false → (!q.dirty || q.held) = (!p.dirty || p.held)) :
    q.nativeProt = p.nativeProt := by
  unfold nativeProt
  rw [status, hold, hot]
  cases isHot : p.hot
  · rw [clean isHot]
  · simp

end MiniBox
