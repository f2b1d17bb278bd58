import MiniBox.Block.Page
import Mathlib.Algebra.Order.BigOperators.Group.List

/-!
# The snapshot pool

The copies of pages live in slots of one page each.  The slots come in chunks from the OS and are
never given back to it; a slot that is free is in a stack, the index, which is a mapping of its own
and is moved to a larger one when a chunk would not fit.

The slots handed out are not in the code.  They are the ghost of `SnapRun`, and the invariant is
about them and the free ones as one list: it is every slot of every chunk, each once.  Sizes and
addresses are natural numbers, since every slot counted is a page of the address space.
-/

namespace MiniBox

structure Mapping where
  start : Nat
  size : Nat

def Mapping.Apart (m n : Mapping) : Prop :=
  m.start + m.size ≤ n.start ∨ n.start + n.size ≤ m.start

/-- How the OS answers `mb_pal_map_anon` while `live` is mapped: with a place that nothing else has,
or with a refusal. -/
structure Pal where
  mapAnon (live : List Mapping) (size : Nat) : Option Nat
  own {live : List Mapping} {size start : Nat} : mapAnon live size = some start →
    0 < start ∧ ∀ m ∈ live, m.Apart ⟨start, size⟩

/-- `SNAP_CHUNK_PAGES`. -/
def snapChunkPages : Nat := 512

structure SnapPool where
  /-- where the index is mapped, and 0 before it is -/
  index : Nat := 0
  /-- what stands in the index, all of it -/
  cells : List Nat := []
  /-- the cells in use, from the first on -/
  count : Nat := 0
  /-- the slots ever mapped -/
  mapped : Nat := 0
  /-- where the chunks are mapped -/
  chunks : List Nat := []

/-- `want *= 2` while it is less than `need`. -/
def doubleTo (need : Nat) : Nat → Nat → Nat
  | 0, want => want
  | fuel + 1, want => if want < need then doubleTo need fuel (want * 2) else want

def chunkMapping (chunk : Nat) : Mapping := ⟨chunk, snapChunkPages * pageSize⟩

def chunkSlots (chunk : Nat) : List Nat :=
  (List.range snapChunkPages).map fun i => chunk + i * pageSize

namespace SnapPool

/-- `g_snap_free_cap`: the slots the index has room for. -/
def freeCap (s : SnapPool) : Nat := s.cells.length

/-- The free slots, the top of the stack last. -/
def free (s : SnapPool) : List Nat := s.cells.take s.count

/-- What the OS has mapped for the pool. -/
def live (s : SnapPool) : List Mapping :=
  (if s.index = 0 then [] else [⟨s.index, s.freeCap * 8⟩]) ++ s.chunks.map chunkMapping

/-- The slots a larger index is mapped for. -/
def want (s : SnapPool) (need : Nat) : Nat :=
  doubleTo need need (if s.freeCap = 0 then 1024 else s.freeCap * 2)

/-- Room in the index for `need` slots.  The cells in use are copied to the start of the new
mapping,
which holds zeros, and the old one is unmapped. -/
def snapIndexRoom (pal : Pal) (need : Nat) (s : SnapPool) : Bool × SnapPool :=
  if need ≤ s.freeCap then (true, s)
  else
    let want := s.want need
    match pal.mapAnon s.live (want * 8) with
    | none => (false, s)
    | some index =>
      (true, { s with
        index
        cells := s.cells.take s.count ++ List.replicate (want - s.count) 0 })

/-- `g_snap_free[g_snap_free_count++] = p`.  A write past the index reaches no cell. -/
def push (s : SnapPool) (p : Nat) : SnapPool :=
  { s with cells := s.cells.set s.count p, count := s.count + 1 }

/-- A chunk for the empty free list, from its first slot to its last. -/
def refill (pal : Pal) (s : SnapPool) : Bool × SnapPool :=
  match s.snapIndexRoom pal (s.mapped + snapChunkPages) with
  | (false, s) => (false, s)
  | (true, s) =>
    match pal.mapAnon s.live (snapChunkPages * pageSize) with
    | none => (false, s)
    | some chunk =>
      (true, { (chunkSlots chunk).foldl push s with
        mapped := s.mapped + snapChunkPages
        chunks := chunk :: s.chunks })

def snapAlloc (pal : Pal) (s : SnapPool) : Option Nat × SnapPool :=
  match if s.count = 0 then s.refill pal else (true, s) with
  | (false, s) => (none, s)
  | (true, s) => (s.cells[s.count - 1]?, { s with count := s.count - 1 })

def snapRelease (pal : Pal) (p : Nat) (s : SnapPool) : SnapPool :=
  if p = 0 then s
  else
    match if s.count < s.freeCap then (true, s) else s.snapIndexRoom pal (s.count + 1) with
    | (false, s) => s
    | (true, s) => s.push p

end SnapPool

/-- Calls on the pool, with the slots that are outstanding after them.  Only these are released. -/
inductive SnapRun : SnapPool → List Nat → Prop where
  | start : SnapRun {} []
  | snapAlloc {s : SnapPool} {out : List Nat} (pal : Pal) : SnapRun s out →
      SnapRun (s.snapAlloc pal).2 ((s.snapAlloc pal).1.toList ++ out)
  | snapRelease {s : SnapPool} {out : List Nat} {p : Nat} (pal : Pal) : SnapRun s out → p ∈ out →
      SnapRun (s.snapRelease pal p) (out.erase p)

/-! ## The slots of the chunks -/

/-- Two slots share no byte. -/
def SlotsApart (p q : Nat) : Prop := p + pageSize ≤ q ∨ q + pageSize ≤ p

theorem SlotsApart.symm {p q : Nat} (h : SlotsApart p q) : SlotsApart q p := Or.symm h

theorem SlotsApart.ne {p q : Nat} (h : SlotsApart p q) : p ≠ q := by
  unfold SlotsApart pageSize at h
  omega

theorem mem_chunkSlots {chunk p : Nat} (h : p ∈ chunkSlots chunk) :
    chunk ≤ p ∧ p + pageSize ≤ chunk + snapChunkPages * pageSize := by
  obtain ⟨i, below, rfl⟩ := List.mem_map.mp h
  have below := List.mem_range.mp below
  simp only [pageSize, snapChunkPages] at below ⊢
  omega

theorem chunkSlots_apart (chunk : Nat) : (chunkSlots chunk).Pairwise SlotsApart := by
  refine List.Pairwise.map _ (fun i j less => .inl ?_) List.pairwise_lt_range
  simp only [pageSize]
  omega

theorem slots_apart {chunks : List Nat} (h : (chunks.map chunkMapping).Pairwise Mapping.Apart) :
    (chunks.flatMap chunkSlots).Pairwise SlotsApart := by
  rw [List.pairwise_flatMap]
  refine ⟨fun chunk _ => chunkSlots_apart chunk, (List.pairwise_map.mp h).imp ?_⟩
  intro c d apart p hp q hq
  have first := mem_chunkSlots hp
  have second := mem_chunkSlots hq
  simp only [Mapping.Apart, chunkMapping] at apart
  unfold SlotsApart
  omega

/-! ## The invariant -/

theorem le_doubleTo {need : Nat} : ∀ {fuel want : Nat}, 0 < want → need ≤ want + fuel →
    need ≤ doubleTo need fuel want
  | 0, _, _, reach => reach
  | fuel + 1, want, pos, reach => by
    unfold doubleTo
    split
    · exact le_doubleTo (by omega) (by omega)
    · omega

namespace SnapPool

/-- The free and the outstanding slots are those of the chunks, which are counted and fit in the
index. -/
structure Sound (s : SnapPool) (out : List Nat) : Prop where
  apart : s.live.Pairwise Mapping.Apart
  somewhere : ∀ chunk ∈ s.chunks, 0 < chunk
  slots : (s.free ++ out).Perm (s.chunks.flatMap chunkSlots)
  mapped : s.mapped = (s.chunks.flatMap chunkSlots).length
  used : s.count ≤ s.mapped
  room : s.mapped ≤ s.freeCap

variable {s : SnapPool} {out : List Nat} {p : Nat}

theorem Sound.length_free (h : s.Sound out) : s.free.length = s.count :=
  List.length_take_of_le (Nat.le_trans h.used h.room)

/-- A push below the end of the index adds a slot at the top. -/
theorem push_free (room : s.count < s.freeCap) : (s.push p).free = s.free ++ [p] := by
  rw [free, push, free, List.take_add_one, List.take_set_of_le (Nat.le_refl _)]
  rw [List.getElem?_set_self room, Option.toList_some]

@[simp] theorem push_count : (s.push p).count = s.count + 1 := rfl

@[simp] theorem push_freeCap : (s.push p).freeCap = s.freeCap := by
  simp [push, freeCap]

/-- The loop over the slots of a chunk changes the index alone. -/
theorem pushes {slots : List Nat} {s : SnapPool} (room : s.count + slots.length ≤ s.freeCap) :
    ∃ cells, slots.foldl push s = { s with cells, count := s.count + slots.length } ∧
      cells.length = s.freeCap ∧
      cells.take (s.count + slots.length) = s.free ++ slots := by
  induction slots generalizing s with
  | nil => exact ⟨s.cells, rfl, rfl, (List.append_nil _).symm⟩
  | cons p slots ih =>
    rw [List.length_cons] at room
    have count : (s.push p).count + slots.length = s.count + (slots.length + 1) := by
      rw [push_count]
      omega
    obtain ⟨cells, is, length, holds⟩ := ih (by rwa [count, push_freeCap])
    rw [count] at is holds
    rw [push_free (by omega), List.append_assoc] at holds
    exact ⟨cells, is, length.trans push_freeCap, holds⟩

theorem live_of_mapped {index : Nat} (mapped : 0 < index) (cells : List Nat) :
    live { s with index, cells } = ⟨index, cells.length * 8⟩ :: s.chunks.map chunkMapping := by
  rw [live, if_neg (Nat.ne_of_gt mapped)]
  rfl

/-- The index grows or stays, with the slots it had, and the rest of the pool is as it was. -/
theorem Sound.snapIndexRoom (h : s.Sound out) (pal : Pal) (need : Nat) :
    ∃ index cells, (s.snapIndexRoom pal need).2 = { s with index, cells } ∧
      (s.snapIndexRoom pal need).2.Sound out ∧
      ((s.snapIndexRoom pal need).1 = true → need ≤ cells.length) := by
  unfold SnapPool.snapIndexRoom
  split
  next fits => exact ⟨_, _, rfl, h, fun _ => fits⟩
  next full =>
    dsimp only
    split
    · exact ⟨_, _, rfl, h, fun no => Bool.noConfusion no⟩
    next index granted =>
      obtain ⟨pos, own⟩ := pal.own granted
      have enough : need ≤ s.want need := le_doubleTo (by split_ifs <;> omega) (by omega)
      have used := h.used
      have room := h.room
      have old := h.length_free
      have length : (s.free ++ List.replicate (s.want need - s.count) 0).length = s.want need := by
        rw [List.length_append, List.length_replicate, old]
        omega
      have copied : (s.free ++ List.replicate (s.want need - s.count) 0).take s.count = s.free :=
        List.take_left' old
      refine ⟨index, _, rfl, ⟨?_, h.somewhere, ?_, h.mapped, used, ?_⟩, fun _ => ?_⟩
      · rw [live_of_mapped pos, List.pairwise_cons]
        refine ⟨fun m hm => ?_, (List.pairwise_append.mp h.apart).2.1⟩
        rw [← free, length]
        exact Or.symm (own m (List.mem_append_right _ hm))
      · rw [free]
        exact copied.symm ▸ h.slots
      · exact Nat.le_trans room (Nat.le_trans (by omega) (Nat.le_of_eq length.symm))
      · exact Nat.le_trans enough (Nat.le_of_eq length.symm)

theorem length_chunkSlots (chunk : Nat) : (chunkSlots chunk).length = snapChunkPages := by
  simp [chunkSlots]

/-- A chunk of its own goes onto the empty stack whole. -/
theorem Sound.chunk (h : s.Sound out) (empty : s.count = 0) {chunk : Nat} (pos : 0 < chunk)
    (own : ∀ m ∈ s.live, m.Apart (chunkMapping chunk))
    (fits : s.mapped + snapChunkPages ≤ s.freeCap) :
    Sound { (chunkSlots chunk).foldl push s with
      mapped := s.mapped + snapChunkPages
      chunks := chunk :: s.chunks } out := by
  have length := length_chunkSlots chunk
  obtain ⟨cells, is, cap, holds⟩ := @pushes (chunkSlots chunk) s (by omega)
  rw [is]
  refine ⟨?_, List.forall_mem_cons.mpr ⟨pos, h.somewhere⟩, ?_, ?_, ?_, ?_⟩
  · rw [live, freeCap, cap]
    exact List.pairwise_middle (fun {_ _} => Or.symm) |>.mpr
      (List.pairwise_cons.mpr ⟨fun m hm => Or.symm (own m hm), h.apart⟩)
  · rw [free, holds, List.flatMap_cons, List.append_assoc]
    exact List.perm_append_comm_assoc .. |>.trans (h.slots.append_left _)
  · rw [List.flatMap_cons, List.length_append, ← h.mapped, length]
    exact Nat.add_comm _ _
  · dsimp only
    omega
  · rw [freeCap, cap]
    exact fits

variable (h : s.Sound out)
include h

theorem Sound.refill (empty : s.count = 0) (pal : Pal) :
    (s.refill pal).2.Sound out ∧ ((s.refill pal).1 = true → 0 < (s.refill pal).2.count) := by
  obtain ⟨index, cells, is, sound, fits⟩ := h.snapIndexRoom pal (s.mapped + snapChunkPages)
  unfold SnapPool.refill
  generalize s.snapIndexRoom pal (s.mapped + snapChunkPages) = grown at is sound fits ⊢
  obtain ⟨ok, t⟩ := grown
  cases ok with
  | false => exact ⟨sound, fun no => Bool.noConfusion no⟩
  | true =>
    dsimp only at is sound ⊢
    subst is
    split
    · exact ⟨sound, fun no => Bool.noConfusion no⟩
    next chunk granted =>
      obtain ⟨pos, own⟩ := pal.own granted
      have fits : s.mapped + snapChunkPages ≤ cells.length := fits rfl
      refine ⟨sound.chunk empty pos own fits, fun _ => ?_⟩
      obtain ⟨_, is, -, -⟩ := @pushes (chunkSlots chunk) { s with index, cells }
        (by rw [length_chunkSlots, empty]; exact Nat.le_trans (by omega) fits)
      rw [is, length_chunkSlots]
      exact Nat.lt_of_lt_of_le (by decide) (Nat.le_add_left _ _)

theorem Sound.pop (some_ : 0 < s.count) :
    Sound { s with count := s.count - 1 } (s.cells[s.count - 1]?.toList ++ out) := by
  have used := h.used
  have top : s.count - 1 < s.cells.length := by
    have := h.room
    rw [freeCap] at this
    omega
  have popped : s.free = s.cells.take (s.count - 1) ++ [s.cells[s.count - 1]] := by
    rw [free, List.take_append_getElem top]
    congr 1
    omega
  have slots := h.slots
  rw [popped, List.append_assoc] at slots
  rw [List.getElem?_eq_getElem top]
  exact ⟨h.apart, h.somewhere, slots, h.mapped, Nat.le_trans (Nat.sub_le _ _) used, h.room⟩

theorem Sound.snapAlloc (pal : Pal) :
    (s.snapAlloc pal).2.Sound ((s.snapAlloc pal).1.toList ++ out) := by
  unfold SnapPool.snapAlloc
  have filled : (if s.count = 0 then s.refill pal else (true, s)).2.Sound out ∧
      ((if s.count = 0 then s.refill pal else (true, s)).1 = true →
        0 < (if s.count = 0 then s.refill pal else (true, s)).2.count) := by
    split_ifs with empty
    · exact h.refill empty pal
    · exact ⟨h, fun _ => Nat.pos_of_ne_zero empty⟩
  generalize (if s.count = 0 then s.refill pal else (true, s)) = t at filled ⊢
  obtain ⟨ok, t⟩ := t
  obtain ⟨sound, some_⟩ := filled
  cases ok with
  | false => exact sound
  | true => exact sound.pop (some_ rfl)

/-- The slots that are not free leave room for one more. -/
theorem Sound.count_lt (outstanding : p ∈ out) : s.count < s.mapped := by
  have some_ := List.length_pos_of_mem outstanding
  have total := h.slots.length_eq
  rw [List.length_append, ← h.mapped, h.length_free] at total
  omega

/-- A slot that is given back has room, whatever the OS would say to a larger index. -/
theorem Sound.snapRelease_eq (pal : Pal) (outstanding : p ∈ out) :
    s.snapRelease pal p = s.push p := by
  have member : p ∈ s.chunks.flatMap chunkSlots :=
    h.slots.mem_iff.mp (List.mem_append_right _ outstanding)
  obtain ⟨chunk, here, slot⟩ := List.mem_flatMap.mp member
  have pos := h.somewhere chunk here
  have above := (mem_chunkSlots slot).1
  have room := Nat.lt_of_lt_of_le (h.count_lt outstanding) h.room
  rw [SnapPool.snapRelease, if_neg (by omega), if_pos room]

theorem Sound.snapRelease (pal : Pal) (outstanding : p ∈ out) :
    (s.snapRelease pal p).Sound (out.erase p) := by
  have fewer := h.count_lt outstanding
  have free := push_free (p := p) (Nat.lt_of_lt_of_le fewer h.room)
  rw [h.snapRelease_eq pal outstanding]
  refine ⟨?_, h.somewhere, ?_, h.mapped, fewer, push_freeCap.symm ▸ h.room⟩
  · rw [live, push_freeCap]
    exact h.apart
  · rw [free, List.append_assoc]
    exact ((List.perm_cons_erase outstanding).append_left s.free).symm.trans h.slots

end SnapPool

theorem SnapRun.sound {s : SnapPool} {out : List Nat} (run : SnapRun s out) : s.Sound out := by
  induction run with
  | start => exact ⟨.nil, by simp, .refl _, rfl, Nat.le_refl _, Nat.le_refl _⟩
  | snapAlloc pal _ ih => exact ih.snapAlloc pal
  | snapRelease pal _ outstanding ih => exact ih.snapRelease pal outstanding

/-- The outstanding slots are places of their own, the free list holds none of them and none twice,
the two are all that was ever mapped, the index has room for all of it, and a slot given back is on
the free list. -/
theorem SnapRun.loses_nothing {s : SnapPool} {out : List Nat} (run : SnapRun s out) :
    out.Pairwise SlotsApart ∧ s.free.Nodup ∧ s.free.Disjoint out ∧
      s.free.length + out.length = s.mapped ∧ s.mapped = snapChunkPages * s.chunks.length ∧
      s.count = s.free.length ∧ s.mapped ≤ s.freeCap ∧
      ∀ pal, ∀ p ∈ out, (s.snapRelease pal p).free = s.free ++ [p] := by
  have sound := run.sound
  have apart : (s.free ++ out).Pairwise SlotsApart :=
    (sound.slots.pairwise_iff fun {_ _} => SlotsApart.symm).mpr
      (slots_apart (List.pairwise_append.mp sound.apart).2.1)
  obtain ⟨free, outstanding, between⟩ := List.pairwise_append.mp apart
  have total := sound.slots.length_eq
  rw [List.length_append, ← sound.mapped] at total
  refine ⟨outstanding, free.imp SlotsApart.ne, fun p hf ho => ?_, total, ?_,
    sound.length_free.symm, sound.room, fun pal p hp => ?_⟩
  · exact (between p hf p ho).ne rfl
  · rw [sound.mapped, List.length_flatMap]
    simp only [SnapPool.length_chunkSlots, List.map_const', List.sum_replicate_nat]
    exact Nat.mul_comm _ _
  · rw [sound.snapRelease_eq pal hp]
    exact SnapPool.push_free (Nat.lt_of_lt_of_le (sound.count_lt hp) sound.room)

/-- An OS that maps above everything that is mapped. -/
def Pal.upward : Pal where
  mapAnon live _ := some (1 + (live.map fun m => m.start + m.size).sum)
  own {live size start} is := by
    cases is
    refine ⟨by omega, fun m hm => .inl ?_⟩
    have := List.le_sum_of_mem
      (List.mem_map_of_mem (f := fun m : Mapping => m.start + m.size) hm)
    dsimp only
    omega

/-- One slot is taken and given back. -/
theorem SnapRun.loses_nothing_first : ∃ s p, SnapRun s [p] ∧
    (s.snapRelease .upward p).free = s.free ++ [p] := by
  have taken := SnapRun.snapAlloc .upward .start
  have one : ((SnapPool.snapAlloc .upward {}).1.toList ++ []).length = 1 := by decide +kernel
  obtain ⟨p, is⟩ := List.length_eq_one_iff.mp one
  rw [is] at taken
  exact ⟨_, p, taken, (loses_nothing taken).2.2.2.2.2.2.2 _ p (by simp)⟩

end MiniBox

