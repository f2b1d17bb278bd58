import MiniBox.Vulkan.Table
import Mathlib.Data.List.Nodup
import Mathlib.Data.List.Perm.Subperm
import Mathlib.Tactic.Common

/-!
# The slots of the Vulkan table

A slot is free, or on the list of one pool, or neither.  `Table.Sound` says it with the lists
beside the table, and `TableOp.sound` that every operation a command makes keeps it.  Most
of what a command does only ends what slots hold (`Table.Quieter`); the rest takes one slot
(`Table.Sound.place`) or gives slots back.
-/

namespace MiniBox.Vulkan

/-! ## Handles -/

theorem slotMask_toNat : slotMask.toNat = 2 ^ 24 - 1 := rfl

theorem slotOf_eq (id : UInt64) : slotOf id = id.toNat % 2 ^ 24 := by
  unfold slotOf
  rw [UInt32.toNat_and, slotMask_toNat, Nat.and_two_pow_sub_one_eq_mod, UInt64.toNat_toUInt32]
  omega

theorem genOf_toNat (id : UInt64) : (genOf id).toNat = id.toNat / 2 ^ 24 % 2 ^ 8 := by
  unfold genOf
  rw [UInt32.toNat_toUInt8, UInt32.toNat_shiftRight, UInt64.toNat_toUInt32,
    Nat.shiftRight_eq_div_pow]
  show id.toNat % 2 ^ 32 / 2 ^ 24 % 2 ^ 8 = _
  omega

theorem ordinal_toNat (id : UInt64) : (id >>> 32).toNat = id.toNat / 2 ^ 32 := by
  rw [UInt64.toNat_shiftRight, Nat.shiftRight_eq_div_pow]
  rfl

theorem handleOf_toNat (ordinal : UInt32) (gen : UInt8) {slot : Nat} (small : slot < 2 ^ 24) :
    (handleOf ordinal gen slot).toNat = ordinal.toNat * 2 ^ 32 + gen.toNat * 2 ^ 24 + slot := by
  have o := ordinal.toNat_lt
  have g := gen.toNat_lt
  have top : (ordinal.toUInt64 <<< 32).toNat = ordinal.toNat <<< 32 := by
    rw [UInt64.toNat_shiftLeft, UInt32.toNat_toUInt64]
    show ordinal.toNat <<< 32 % 2 ^ 64 = _
    rw [Nat.shiftLeft_eq]
    omega
  have middle : (gen.toUInt64 <<< 24).toNat = gen.toNat <<< 24 := by
    rw [UInt64.toNat_shiftLeft, UInt8.toNat_toUInt64]
    show gen.toNat <<< 24 % 2 ^ 64 = _
    rw [Nat.shiftLeft_eq]
    omega
  have low : (UInt64.ofNat slot).toNat = slot := UInt64.toNat_ofNat_of_lt' (by
    show slot < 2 ^ 64
    omega)
  rw [handleOf, UInt64.toNat_or, UInt64.toNat_or, top, middle, low,
    ← Nat.shiftLeft_add_eq_or_of_lt (by rw [Nat.shiftLeft_eq]; omega),
    Nat.shiftLeft_eq, Nat.shiftLeft_eq]
  have sum : ordinal.toNat * 2 ^ 32 + gen.toNat * 2 ^ 24 =
      (ordinal.toNat * 2 ^ 8 + gen.toNat) <<< 24 := by
    rw [Nat.shiftLeft_eq]
    omega
  rw [sum, ← Nat.shiftLeft_add_eq_or_of_lt small]

section Decode

variable (ordinal : UInt32) (gen : UInt8) {slot : Nat} (small : slot < 2 ^ 24)
include small

theorem slotOf_handleOf : slotOf (handleOf ordinal gen slot) = slot := by
  rw [slotOf_eq, handleOf_toNat ordinal gen small]
  omega

theorem genOf_handleOf : genOf (handleOf ordinal gen slot) = gen := by
  have g := gen.toNat_lt
  refine UInt8.toNat_inj.mp ?_
  rw [genOf_toNat, handleOf_toNat ordinal gen small]
  omega

theorem ordinal_handleOf : (handleOf ordinal gen slot >>> 32).toNat = ordinal.toNat := by
  have g := gen.toNat_lt
  rw [ordinal_toNat, handleOf_toNat ordinal gen small]
  omega

end Decode

namespace Table

variable {t : Table}

/-- What a handle that is taken says. -/
theorem entry_eq_some {id : UInt64} {kind : Kind} {e : Entry} (found : t.entry id kind = some e) :
    (id >>> 32).toNat = t.ordinal.toNat ∧ 0 < slotOf id ∧ slotOf id < t.count ∧
      e = t.entries (slotOf id) ∧ e.gen = genOf id ∧ e.host ≠ 0 ∧ e.kind = kind := by
  unfold entry at found
  dsimp only at found
  split at found
  · cases found
  · rename_i here
    simp only [not_or, not_not, Nat.not_le] at here
    obtain ⟨ordinal, index, inside⟩ := here
    split at found
    · cases found
    · rename_i gen
      split at found
      · rename_i live
        cases found
        refine ⟨?_, Nat.pos_of_ne_zero index, inside, rfl, not_not.mp gen, live.1, live.2⟩
        rw [ordinal, UInt32.toNat_toUInt64]
      · cases found

/-! ## Putting entries -/

section

variable (slot : Nat)
include slot

@[simp] theorem put_count (e : Entry) : (t.put slot e).count = t.count := rfl
@[simp] theorem put_free (e : Entry) : (t.put slot e).free = t.free := rfl
@[simp] theorem put_ordinal (e : Entry) : (t.put slot e).ordinal = t.ordinal := rfl

@[simp] theorem put_entries (e : Entry) (i : Nat) :
    (t.put slot e).entries i = if i = slot then e else t.entries i :=
  Function.update_apply _ _ _ _

@[simp] theorem giveBack_count : (t.giveBack slot).count = t.count := rfl
@[simp] theorem giveBack_free : (t.giveBack slot).free = slot :: t.free := rfl
@[simp] theorem giveBack_ordinal : (t.giveBack slot).ordinal = t.ordinal := rfl
@[simp] theorem giveBack_entries : (t.giveBack slot).entries = t.entries := rfl

end

/-! ## Lists of pools -/

/-- The slots from `i` on, each the next sibling of the one before. -/
inductive Chain (entries : Nat → Entry) : Nat → List Nat → Prop where
  | nil : Chain entries 0 []
  | cons {i : Nat} {rest : List Nat} : i ≠ 0 → Chain entries (entries i).nextSibling rest →
      Chain entries i (i :: rest)

/-- A list stays as long as the siblings of its slots do. -/
theorem Chain.congr {entries entries' : Nat → Entry} {i : Nat} {slots : List Nat}
    (chain : Chain entries i slots)
    (same : ∀ s ∈ slots, (entries' s).nextSibling = (entries s).nextSibling) :
    Chain entries' i slots := by
  induction chain with
  | nil => exact .nil
  | @cons i rest nonzero _ ih =>
    refine .cons nonzero ?_
    rw [same i (by simp)]
    exact ih fun s member => same s (List.mem_cons_of_mem i member)

theorem Chain.zero {entries : Nat → Entry} {slots : List Nat} (chain : Chain entries 0 slots) :
    slots = [] := by
  cases chain with
  | nil => rfl
  | cons nonzero _ => exact absurd rfl nonzero

/-- A table, with the slots on the list of each pool. -/
structure Sound (t : Table) (kids : Nat → List Nat) : Prop where
  some_ : 0 < t.count
  few : t.count ≤ 2 ^ 24
  /-- a slot is free once, holds nothing and is no pool with a list -/
  once : t.free.Nodup
  idle : ∀ s ∈ t.free, 0 < s ∧ s < t.count ∧ (t.entries s).host = 0 ∧ (t.entries s).firstChild = 0
  /-- each pool's list is the one its entry starts -/
  chain : ∀ p, 0 < p → p < t.count → Chain t.entries (t.entries p).firstChild (kids p)
  acyclic : ∀ p, (kids p).Nodup
  /-- what is on a list has the pool for its parent, and no list of its own -/
  owned : ∀ p, ∀ c ∈ kids p, 0 < c ∧ c < t.count ∧ c ∉ t.free ∧ (t.entries c).parent = p ∧
    (t.entries c).firstChild = 0
  pools : ∀ p, kids p ≠ [] → 0 < p ∧ p < t.count ∧ p ∉ t.free
  /-- what lives and has a parent is on that parent's list -/
  held : ∀ c, 0 < c → c < t.count → (t.entries c).host ≠ 0 → (t.entries c).parent ≠ 0 →
    c ∈ kids (t.entries c).parent
  kinds : ∀ c, 0 < c → c < t.count → (t.entries c).host ≠ 0 →
    (t.entries c).parent ≠ 0 → (t.entries c).kind.ofPool = true

namespace Sound

variable {kids : Nat → List Nat}

theorem not_free (sound : t.Sound kids) {s : Nat} (live : (t.entries s).host ≠ 0) : s ∉ t.free :=
  fun member => live (sound.idle s member).2.2.1

/-- A pool has no more than the table. -/
theorem kids_length (sound : t.Sound kids) (pool : Nat) : (kids pool).length ≤ t.count := by
  have among : kids pool ⊆ List.range t.count := fun c member =>
    List.mem_range.mpr (sound.owned pool c member).2.1
  have shorter := (List.subperm_of_subset (sound.acyclic pool) among).length_le
  rwa [List.length_range] at shorter

theorem new : Sound {} fun _ => [] where
  some_ := Nat.one_pos
  few := by decide
  once := List.nodup_nil
  idle := fun s member => nomatch member
  chain := fun p pos inside => absurd pos (by
    have : p < 1 := inside
    omega)
  acyclic := fun p => List.nodup_nil
  owned := fun p c member => nomatch member
  pools := fun p wrong => absurd rfl wrong
  held := fun c pos inside => absurd pos (by
    have : c < 1 := inside
    omega)
  kinds := fun c pos inside => absurd pos (by
    have : c < 1 := inside
    omega)

end Sound

/-! ## Ending what slots hold -/

/-- The same table, where some slots no longer hold what they did. -/
structure Quieter (t t' : Table) : Prop where
  count : t'.count = t.count
  free : t'.free = t.free
  ordinal : t'.ordinal = t.ordinal
  entries : ∀ i, t'.entries i = t.entries i ∨ t'.entries i = { t.entries i with host := 0 }

namespace Quieter

variable {t' : Table} (quieter : Quieter t t')
include quieter

theorem host {i : Nat} (live : (t'.entries i).host ≠ 0) : t'.entries i = t.entries i := by
  rcases quieter.entries i with same | ended
  · exact same
  · rw [ended] at live
    exact absurd rfl live

theorem fields (i : Nat) : (t'.entries i).parent = (t.entries i).parent ∧
    (t'.entries i).firstChild = (t.entries i).firstChild ∧
    (t'.entries i).nextSibling = (t.entries i).nextSibling ∧
    (t'.entries i).kind = (t.entries i).kind ∧ (t'.entries i).gen = (t.entries i).gen := by
  rcases quieter.entries i with same | ended
  · rw [same]
    exact ⟨rfl, rfl, rfl, rfl, rfl⟩
  · rw [ended]
    exact ⟨rfl, rfl, rfl, rfl, rfl⟩

theorem host_zero {i : Nat} (dead : (t.entries i).host = 0) : (t'.entries i).host = 0 := by
  rcases quieter.entries i with same | ended
  · rw [same]
    exact dead
  · rw [ended]

theorem sound {kids : Nat → List Nat} (sound : t.Sound kids) : t'.Sound kids where
  some_ := by rw [quieter.count]; exact sound.some_
  few := by rw [quieter.count]; exact sound.few
  once := by rw [quieter.free]; exact sound.once
  idle := fun s member => by
    rw [quieter.free] at member
    obtain ⟨pos, inside, dead, childless⟩ := sound.idle s member
    rw [quieter.count, (quieter.fields s).2.1]
    exact ⟨pos, inside, quieter.host_zero dead, childless⟩
  chain := fun p pos inside => by
    rw [quieter.count] at inside
    rw [(quieter.fields p).2.1]
    exact (sound.chain p pos inside).congr fun s _ => (quieter.fields s).2.2.1
  acyclic := sound.acyclic
  owned := fun p c member => by
    rw [quieter.count, quieter.free, (quieter.fields c).1, (quieter.fields c).2.1]
    exact sound.owned p c member
  pools := fun p some_ => by
    rw [quieter.count, quieter.free]
    exact sound.pools p some_
  held := fun c pos inside live => by
    rw [quieter.count] at inside
    have same := quieter.host live
    rw [same] at live ⊢
    exact sound.held c pos inside live
  kinds := fun c pos inside live => by
    rw [quieter.count] at inside
    have same := quieter.host live
    rw [same] at live ⊢
    exact sound.kinds c pos inside live

end Quieter

theorem quieter_put {slot : Nat} {e : Entry} (same : e = t.entries slot) :
    Quieter t (t.put slot { e with host := 0 }) := by
  refine ⟨rfl, rfl, rfl, fun i => ?_⟩
  rw [put_entries]
  split
  · rename_i here
    exact .inr (by rw [here, same])
  · exact .inl rfl

theorem Quieter.trans {t' t'' : Table} (first : Quieter t t') (second : Quieter t' t'') :
    Quieter t t'' := by
  refine ⟨second.count.trans first.count, second.free.trans first.free,
    second.ordinal.trans first.ordinal, fun i => ?_⟩
  rcases second.entries i with same | ended
  · rw [same]
    exact first.entries i
  · refine .inr ?_
    rw [ended]
    rcases first.entries i with same | ended'
    · rw [same]
    · rw [ended']

theorem quieter_destroyFrom : ∀ (n : Nat) (t : Table), Quieter t (destroyFrom n t).2
  | 0, t => ⟨rfl, rfl, rfl, fun _ => .inl rfl⟩
  | n + 1, t => by
    rw [destroyFrom]
    dsimp only
    split
    · exact quieter_destroyFrom n t
    · exact (quieter_put rfl).trans (quieter_destroyFrom n _)

theorem quieter_forgetDeviceEntries (t : Table) : Quieter t t.forgetDeviceEntries := by
  refine ⟨rfl, rfl, rfl, fun i => ?_⟩
  show (if t.dies i then _ else _) = _ ∨ (if t.dies i then _ else _) = _
  split
  · exact .inr rfl
  · exact .inl rfl

/-! ## Taking a slot -/

/-- A slot taken for what comes: the newest that was given back, or the next. -/
structure Takes (t t' : Table) (slot : Nat) : Prop where
  entries : t'.entries = t.entries
  ordinal : t'.ordinal = t.ordinal
  more : t.count ≤ t'.count
  few : t'.count ≤ 2 ^ 24
  inside : 0 < slot ∧ slot < t'.count
  others : ∀ s, s < t'.count → s ≠ slot → s < t.count
  once : t'.free.Nodup
  left : ∀ s, s ∈ t'.free ↔ s ∈ t.free ∧ s ≠ slot
  unused : slot ∈ t.free ∨ t.count ≤ slot

namespace Takes

variable {t' : Table} {slot : Nat} {kids : Nat → List Nat} (takes : Takes t t' slot)
include takes

theorem ne_live (sound : t.Sound kids) {s : Nat} (inside : s < t.count)
    (live : (t.entries s).host ≠ 0) : s ≠ slot := by
  rintro rfl
  rcases takes.unused with free | past
  · exact sound.not_free live free
  · omega

theorem not_kid (sound : t.Sound kids) (p : Nat) : slot ∉ kids p := by
  intro member
  obtain ⟨-, inside, apart, -⟩ := sound.owned p slot member
  rcases takes.unused with free | past
  · exact apart free
  · omega

theorem childless (sound : t.Sound kids) : kids slot = [] := by
  by_contra some_
  obtain ⟨-, inside, apart⟩ := sound.pools slot some_
  rcases takes.unused with free | past
  · exact apart free
  · omega

end Takes

variable {t' : Table} {slot parent pool : Nat} {kids : Nat → List Nat} {kind : Kind}

/-- Where `vkb_register` may put something: in no pool, or in a pool that lives. -/
def Issues (t : Table) (kind : Kind) (parent : Nat) : Prop :=
  parent = 0 ∨
    (kind.ofPool = true ∧ 0 < parent ∧ parent < t.count ∧ (t.entries parent).host ≠ 0 ∧
      (t.entries parent).kind.ofPool = false)

theorem Takes.parent_ne (takes : Takes t t' slot) (sound : t.Sound kids)
    (issues : t.Issues kind parent) :
    parent ≠ slot := by
  rcases issues with root | ⟨-, -, inside, alive, -⟩
  · have pos := takes.inside.1
    omega
  · exact takes.ne_live sound inside alive

theorem place_entries (apart : parent ≠ slot) (gen : UInt8) (kind : Kind) (host : UInt64)
    (i : Nat) :
    (t.place slot gen kind host parent).2.entries i =
      if i = slot then
        { host, kind, parent, gen,
          nextSibling := if parent ≠ 0 then (t.entries parent).firstChild else 0 }
      else if parent ≠ 0 ∧ i = parent then { t.entries i with firstChild := slot }
      else t.entries i := by
  unfold place
  dsimp only
  by_cases root : parent = 0
  · simp only [root, ne_eq, not_true_eq_false, if_false, false_and, put_entries]
  · simp only [root, ne_eq, not_false_eq_true, if_true, true_and, put_entries, if_neg apart]
    by_cases here : i = slot
    · subst here
      simp only [if_neg (Ne.symm apart), if_true]
    · by_cases pool : i = parent
      · subst pool
        simp only [if_true, if_neg apart]
      · simp only [if_neg here, if_neg pool]

theorem place_count (gen : UInt8) (kind : Kind) (host : UInt64) :
    (t.place slot gen kind host parent).2.count = t.count := by
  unfold place
  dsimp only
  split <;> rfl

theorem place_free (gen : UInt8) (kind : Kind) (host : UInt64) :
    (t.place slot gen kind host parent).2.free = t.free := by
  unfold place
  dsimp only
  split <;> rfl

theorem place_ordinal (gen : UInt8) (kind : Kind) (host : UInt64) :
    (t.place slot gen kind host parent).2.ordinal = t.ordinal := by
  unfold place
  dsimp only
  split <;> rfl

theorem place_handle (gen : UInt8) (kind : Kind) (host : UInt64) :
    (t.place slot gen kind host parent).1 = handleOf t.ordinal gen slot := by
  unfold place
  dsimp only
  split <;> rfl

/-- The lists when a slot has been put on the list of a pool. -/
def joined (kids : Nat → List Nat) (parent slot : Nat) (p : Nat) : List Nat :=
  if parent ≠ 0 ∧ p = parent then slot :: kids p else kids p

/-- A slot that was taken and filled: it is first on the list of the pool it is put in, and the
other slots have all they had. -/
structure Placed (t s : Table) (slot parent : Nat) (kind : Kind) : Prop where
  more : t.count ≤ s.count
  inside : 0 < slot ∧ slot < s.count
  others : ∀ i, i < s.count → i ≠ slot → i < t.count
  left : ∀ i, i ∈ s.free ↔ i ∈ t.free ∧ i ≠ slot
  new : (s.entries slot).parent = parent ∧ (s.entries slot).firstChild = 0 ∧
    (s.entries slot).kind = kind ∧
    (parent ≠ 0 → (s.entries slot).nextSibling = (t.entries parent).firstChild)
  old : ∀ i ≠ slot, s.entries i = { t.entries i with
    firstChild := if parent ≠ 0 ∧ i = parent then slot else (t.entries i).firstChild }

theorem Takes.placed (takes : Takes t t' slot) (apart : parent ≠ slot) (gen : UInt8)
    (host : UInt64) : Placed t (t'.place slot gen kind host parent).2 slot parent kind := by
  have entries := fun i => place_entries (t := t') apart gen kind host i
  rw [takes.entries] at entries
  refine ⟨?_, ?_, ?_, ?_, ?_, fun i other => ?_⟩
  · exact (place_count gen kind host).symm ▸ takes.more
  · exact (place_count gen kind host).symm ▸ takes.inside
  · exact (place_count gen kind host).symm ▸ takes.others
  · exact (place_free gen kind host).symm ▸ takes.left
  · rw [entries, if_pos rfl]
    exact ⟨rfl, rfl, rfl, fun pool => if_pos pool⟩
  · rw [entries, if_neg other]
    split <;> rfl

namespace Placed

variable {s : Table} {c p : Nat} (placed : Placed t s slot parent kind) (sound : t.Sound kids)
include placed sound

theorem idle (issues : t.Issues kind parent) (free : c ∈ s.free) :
    0 < c ∧ c < s.count ∧ (s.entries c).host = 0 ∧ (s.entries c).firstChild = 0 := by
  obtain ⟨before, other⟩ := (placed.left c).mp free
  obtain ⟨pos, inside, dead, childless⟩ := sound.idle c before
  rw [placed.old c other]
  refine ⟨pos, Nat.lt_of_lt_of_le inside placed.more, dead, ?_⟩
  dsimp only
  split
  · rename_i here
    obtain ⟨-, -, -, alive, -⟩ := issues.resolve_left here.1
    exact absurd dead (here.2 ▸ alive)
  · exact childless

theorem chain (unused : slot ∉ kids p) (childless : kids slot = []) (apart : parent ≠ slot)
    (pos : 0 < p) (inside : p < s.count) :
    Chain s.entries (s.entries p).firstChild (joined kids parent slot p) := by
  by_cases here : p = slot
  · rw [here, placed.new.2.1, joined, if_neg fun wrong => apart wrong.2.symm, childless]
    exact .nil
  · have chain : Chain s.entries _ (kids p) :=
      (sound.chain p pos (placed.others p inside here)).congr fun c member => by
        rw [placed.old c fun here => unused (here ▸ member)]
    rw [placed.old p here, joined]
    dsimp only
    split
    · rename_i joins
      refine .cons (Nat.ne_of_gt placed.inside.1) ?_
      rw [placed.new.2.2.2 joins.1, ← joins.2]
      exact chain
    · exact chain

/-- What was on a list stays as it was: a pool has no parent, so it is on no list itself. -/
theorem owned_old (issues : t.Issues kind parent) (other : c ≠ slot) (member : c ∈ kids p) :
    0 < c ∧ c < s.count ∧ c ∉ s.free ∧ (s.entries c).parent = p ∧
      (s.entries c).firstChild = 0 := by
  obtain ⟨pos, inside, loose, mine, childless⟩ := sound.owned p c member
  rw [placed.old c other, placed.left]
  refine ⟨pos, Nat.lt_of_lt_of_le inside placed.more, fun wrong => loose wrong.1, mine, ?_⟩
  dsimp only
  split
  · rename_i joins
    obtain ⟨-, -, -, alive, not_⟩ := issues.resolve_left joins.1
    rw [← joins.2] at alive not_
    have own := sound.kinds c pos inside alive (by
      rw [mine]
      exact Nat.ne_of_gt (sound.pools p (List.ne_nil_of_mem member)).1)
    rw [not_] at own
    cases own
  · exact childless

theorem owned (issues : t.Issues kind parent) (unused : slot ∉ kids p)
    (member : c ∈ joined kids parent slot p) :
    0 < c ∧ c < s.count ∧ c ∉ s.free ∧ (s.entries c).parent = p ∧
      (s.entries c).firstChild = 0 := by
  have kid (member : c ∈ kids p) := placed.owned_old sound issues
    (fun here => unused (here ▸ member)) member
  rw [joined] at member
  split at member
  · rename_i joins
    rcases List.mem_cons.mp member with rfl | among
    · rw [placed.left]
      exact ⟨placed.inside.1, placed.inside.2, fun wrong => wrong.2 rfl,
        placed.new.1.trans joins.2.symm, placed.new.2.1⟩
    · exact kid among
  · exact kid member

theorem pools (issues : t.Issues kind parent) (some_ : joined kids parent slot p ≠ []) :
    0 < p ∧ p < s.count ∧ p ∉ s.free := by
  rw [joined] at some_
  rw [placed.left]
  split at some_
  · rename_i joins
    obtain ⟨-, pos, inside, alive, -⟩ := issues.resolve_left joins.1
    rw [joins.2]
    exact ⟨pos, Nat.lt_of_lt_of_le inside placed.more, fun wrong => sound.not_free alive wrong.1⟩
  · obtain ⟨pos, inside, loose⟩ := sound.pools p some_
    exact ⟨pos, Nat.lt_of_lt_of_le inside placed.more, fun wrong => loose wrong.1⟩

theorem held (pos : 0 < c) (inside : c < s.count) (alive : (s.entries c).host ≠ 0)
    (owned : (s.entries c).parent ≠ 0) : c ∈ joined kids parent slot (s.entries c).parent := by
  by_cases here : c = slot
  · rw [here, placed.new.1] at owned ⊢
    rw [joined, if_pos ⟨owned, rfl⟩]
    exact List.mem_cons_self
  · rw [placed.old c here] at alive owned ⊢
    have among := sound.held c pos (placed.others c inside here) alive owned
    show c ∈ joined kids parent slot (t.entries c).parent
    rw [joined]
    split
    · exact List.mem_cons_of_mem slot among
    · exact among

theorem kinds (issues : t.Issues kind parent) (pos : 0 < c) (inside : c < s.count)
    (alive : (s.entries c).host ≠ 0) (owned : (s.entries c).parent ≠ 0) :
    (s.entries c).kind.ofPool = true := by
  by_cases here : c = slot
  · rw [here, placed.new.1] at owned
    rw [here, placed.new.2.2.1]
    exact (issues.resolve_left owned).1
  · rw [placed.old c here] at alive owned ⊢
    exact sound.kinds c pos (placed.others c inside here) alive owned

end Placed

theorem Sound.place (sound : t.Sound kids) (takes : Takes t t' slot) (host : UInt64) (gen : UInt8)
    (issues : t.Issues kind parent) :
    (t'.place slot gen kind host parent).2.Sound (joined kids parent slot) := by
  have apart := takes.parent_ne sound issues
  have placed : Placed t (t'.place slot gen kind host parent).2 slot parent kind :=
    takes.placed apart gen host
  have unused := fun p => takes.not_kid sound p
  refine ⟨Nat.lt_of_lt_of_le sound.some_ placed.more, ?_, ?_, fun c => placed.idle sound issues,
    fun p => placed.chain sound (unused p) (takes.childless sound) apart, fun p => ?_,
    fun p c => placed.owned sound issues (unused p), fun p => placed.pools sound issues,
    fun c => placed.held sound, fun c => placed.kinds sound issues⟩
  · rw [place_count]
    exact takes.few
  · rw [place_free]
    exact takes.once
  · rw [joined]
    split
    · exact List.nodup_cons.mpr ⟨unused p, sound.acyclic p⟩
    · exact sound.acyclic p

/-- What `vkb_register` does: nothing, or it takes a slot. -/
theorem register_cases (sound : ∃ kids, t.Sound kids) (kind : Kind) (host : UInt64) (parent : Nat) :
    t.register kind host parent = (0, t) ∨ host ≠ 0 ∧ ∃ t' slot gen, Takes t t' slot ∧
      t.register kind host parent = t'.place slot gen kind host parent ∧
      (slot ∈ t.free → gen = (t.entries slot).gen) := by
  obtain ⟨kids, sound⟩ := sound
  unfold register
  split
  · exact .inl rfl
  · rename_i live
    split
    · rename_i slot free spare
      have once := sound.once
      rw [spare, List.nodup_cons] at once
      obtain ⟨pos, inside, -, -⟩ := sound.idle slot (by rw [spare]; exact List.mem_cons_self)
      refine .inr ⟨live, { t with free }, slot, (t.entries slot).gen, ⟨rfl, rfl, Nat.le_refl _,
        sound.few, ⟨pos, inside⟩, fun s less _ => less, once.2, fun s => ?_, .inl ?_⟩, rfl,
        fun _ => rfl⟩
      · rw [spare, List.mem_cons]
        constructor
        · intro member
          exact ⟨.inr member, fun here => once.1 (here ▸ member)⟩
        · rintro ⟨here | member, other⟩
          · exact absurd here other
          · exact member
      · rw [spare]
        exact List.mem_cons_self
    · rename_i spare
      split
      · exact .inl rfl
      · rename_i room
        rw [slotMask_toNat] at room
        refine .inr ⟨live, { t with count := t.count + 1 }, t.count, 0, ⟨rfl, rfl, Nat.le_succ _,
          ?_, ⟨sound.some_, Nat.lt_succ_self _⟩, fun s less other => ?_, sound.once, fun s => ?_,
          .inr (Nat.le_refl _)⟩, rfl, fun member => ?_⟩
        · show t.count + 1 ≤ 2 ^ 24
          omega
        · have less : s < t.count + 1 := less
          omega
        · show s ∈ t.free ↔ _
          rw [spare]
          simp
        · rw [spare] at member
          cases member

/-! ## Giving slots back -/

/-- What was in some slots has ended and they are given back, and a pool has no list any more. -/
structure Released (t t' : Table) (pool : Nat) (slots : List Nat) : Prop where
  count : t'.count = t.count
  ordinal : t'.ordinal = t.ordinal
  free : t'.free = slots.reverse ++ t.free
  ended : ∀ i ∈ slots, (t'.entries i).host = 0 ∧
    (t'.entries i).firstChild = (t.entries i).firstChild ∧
    (t'.entries i).gen = (t.entries i).gen + 1
  kept : ∀ i ∉ slots, i ≠ pool → t'.entries i = t.entries i
  pool : pool ∉ slots → t'.entries pool = { t.entries pool with firstChild := 0 }

/-- Slots that may be given back: nothing but the pool's own list has them. -/
structure Loose (t : Table) (kids : Nat → List Nat) (pool : Nat) (slots : List Nat) : Prop where
  once : slots.Nodup
  inside : ∀ s ∈ slots, 0 < s ∧ s < t.count ∧ s ∉ t.free ∧ (t.entries s).firstChild = 0
  apart : ∀ q ≠ pool, ∀ c ∈ kids q, c ∉ slots
  whole : ∀ c ∈ kids pool, c ∈ slots
  pool : 0 < pool ∧ pool < t.count ∧ pool ∉ t.free

namespace Released

variable {slots : List Nat} {c p : Nat}

/-- A slot that keeps what it has, a pool's list apart. -/
theorem old (released : Released t t' pool slots) (kept : c ∉ slots) : t'.entries c =
    { t.entries c with firstChild := if c = pool then 0 else (t.entries c).firstChild } := by
  split
  · rename_i here
    subst here
    exact released.pool kept
  · rename_i other
    exact released.kept c kept other

theorem not_back (released : Released t t' pool slots) (live : (t'.entries c).host ≠ 0) :
    c ∉ slots :=
  fun back => live (released.ended c back).1

variable (released : Released t t' pool slots) (loose : Loose t kids pool slots)
  (sound : t.Sound kids)
include released loose sound

theorem once : t'.free.Nodup := by
  rw [released.free, List.nodup_append]
  refine ⟨List.nodup_reverse.mpr loose.once, sound.once, fun a back b free same => ?_⟩
  exact (loose.inside a (List.mem_reverse.mp back)).2.2.1 (same ▸ free)

theorem idle (free : c ∈ t'.free) :
    0 < c ∧ c < t'.count ∧ (t'.entries c).host = 0 ∧ (t'.entries c).firstChild = 0 := by
  rw [released.free, List.mem_append, List.mem_reverse] at free
  rw [released.count]
  by_cases back : c ∈ slots
  · obtain ⟨pos, inside, -, none_⟩ := loose.inside c back
    obtain ⟨dead, first, -⟩ := released.ended c back
    exact ⟨pos, inside, dead, first.trans none_⟩
  · obtain ⟨pos, inside, dead, none_⟩ := sound.idle c (free.resolve_left back)
    rw [released.old back, none_]
    exact ⟨pos, inside, dead, by split <;> rfl⟩

omit released in
theorem childless (back : c ∈ slots) : kids c = [] := by
  obtain ⟨pos, inside, -, none_⟩ := loose.inside c back
  have chain := sound.chain c pos inside
  rw [none_] at chain
  exact chain.zero

theorem chain (pos : 0 < p) (inside : p < t'.count) :
    Chain t'.entries (t'.entries p).firstChild (Function.update kids pool [] p) := by
  rw [released.count] at inside
  rw [Function.update_apply]
  by_cases back : p ∈ slots
  · rw [(released.ended p back).2.1, (loose.inside p back).2.2.2, childless loose sound back]
    split <;> exact .nil
  · rw [released.old back]
    dsimp only
    split
    · exact .nil
    · rename_i other
      refine (sound.chain p pos inside).congr fun s member => ?_
      rw [released.old (loose.apart p other s member)]

theorem owned (member : c ∈ Function.update kids pool [] p) :
    0 < c ∧ c < t'.count ∧ c ∉ t'.free ∧ (t'.entries c).parent = p ∧
      (t'.entries c).firstChild = 0 := by
  rw [Function.update_apply] at member
  split at member
  · cases member
  · rename_i other
    have kept := loose.apart p other c member
    obtain ⟨pos, inside, apart, mine, none_⟩ := sound.owned p c member
    rw [released.count, released.free, List.mem_append, List.mem_reverse, released.old kept, none_]
    exact ⟨pos, inside, not_or.mpr ⟨kept, apart⟩, mine, by split <;> rfl⟩

theorem pools (some_ : Function.update kids pool [] p ≠ []) :
    0 < p ∧ p < t'.count ∧ p ∉ t'.free := by
  rw [Function.update_apply] at some_
  split at some_
  · exact absurd rfl some_
  · obtain ⟨pos, inside, apart⟩ := sound.pools p some_
    rw [released.count, released.free, List.mem_append, List.mem_reverse]
    exact ⟨pos, inside, not_or.mpr ⟨fun back => some_ (childless loose sound back), apart⟩⟩

theorem held (pos : 0 < c) (inside : c < t'.count) (live : (t'.entries c).host ≠ 0)
    (owned : (t'.entries c).parent ≠ 0) : c ∈ Function.update kids pool []
    (t'.entries c).parent := by
  have kept := released.not_back live
  rw [released.count] at inside
  rw [released.old kept] at live owned ⊢
  have among := sound.held c pos inside live owned
  show c ∈ Function.update kids pool [] (t.entries c).parent
  rw [Function.update_apply]
  split
  · rename_i here
    rw [here] at among
    exact absurd (loose.whole c among) kept
  · exact among

omit loose in
theorem kinds (pos : 0 < c) (inside : c < t'.count) (live : (t'.entries c).host ≠ 0)
    (owned : (t'.entries c).parent ≠ 0) : (t'.entries c).kind.ofPool = true := by
  have kept := released.not_back live
  rw [released.count] at inside
  rw [released.old kept] at live owned ⊢
  exact sound.kinds c pos inside live owned

end Released

theorem Sound.released (sound : t.Sound kids) {slots : List Nat} (loose : Loose t kids pool slots)
    (released : Released t t' pool slots) : t'.Sound (Function.update kids pool []) where
  some_ := released.count.symm ▸ sound.some_
  few := released.count.symm ▸ sound.few
  once := released.once loose sound
  idle := fun _ => released.idle loose sound
  chain := fun _ => released.chain loose sound
  acyclic := fun p => by
    rw [Function.update_apply]
    split
    · exact List.nodup_nil
    · exact sound.acyclic p
  owned := fun _ _ => released.owned loose sound
  pools := fun _ => released.pools loose sound
  held := fun _ => released.held loose sound
  kinds := fun _ => released.kinds sound

/-- What `vkb_forget` does: nothing, or it ends what a slot holds, or it gives it back too. -/
theorem forget_cases (sound : t.Sound kids) (id : UInt64) (kind : Kind) :
    (t.entry id kind = none ∧ t.forget id kind = t) ∨
    (∃ e, t.entry id kind = some e ∧
      (Quieter t (t.forget id kind) ∧ ((t.forget id kind).entries (slotOf id)).host = 0 ∨
        e.parent = 0 ∧ e.firstChild = 0 ∧ Loose t kids (slotOf id) [slotOf id] ∧
          Released t (t.forget id kind) (slotOf id) [slotOf id])) := by
  cases found : t.entry id kind with
  | none => exact .inl ⟨rfl, by rw [forget, found]⟩
  | some e =>
    refine .inr ⟨e, rfl, ?_⟩
    obtain ⟨-, pos, inside, rfl, -, live, -⟩ := entry_eq_some found
    rw [forget, found]
    dsimp only
    split
    · rename_i last
      obtain ⟨root, childless⟩ := last
      have alone : ∀ q, slotOf id ∉ kids q := fun q member => by
        have mine := (sound.owned q _ member).2.2.2.1
        have pool := (sound.pools q (List.ne_nil_of_mem member)).1
        omega
      refine .inr ⟨root, childless, ⟨List.nodup_singleton _, ?_, ?_, ?_,
        pos, inside, sound.not_free live⟩, ⟨rfl, rfl, rfl, ?_, ?_, ?_⟩⟩
      · intro s member
        rw [List.mem_singleton.mp member]
        exact ⟨pos, inside, sound.not_free live, childless⟩
      · intro q _ c member back
        rw [List.mem_singleton.mp back] at member
        exact alone q member
      · intro c member
        have chain := sound.chain _ pos inside
        rw [childless] at chain
        rw [chain.zero] at member
        cases member
      · intro i member
        rw [List.mem_singleton.mp member]
        simp
      · intro i _ other
        simp [other]
      · intro wrong
        exact absurd List.mem_cons_self wrong
    · exact .inl ⟨quieter_put rfl, by simp⟩

/-- Slots dropped one after the other. -/
theorem dropAll_eq : ∀ (slots : List Nat) (t : Table), slots.Nodup →
    (slots.foldl drop t).count = t.count ∧ (slots.foldl drop t).ordinal = t.ordinal ∧
    (slots.foldl drop t).free = slots.reverse ++ t.free ∧
    ∀ i, (slots.foldl drop t).entries i =
      if i ∈ slots then { t.entries i with host := 0, nextSibling := 0, gen :=
        (t.entries i).gen + 1 }
      else t.entries i
  | [], t, _ => ⟨rfl, rfl, rfl, fun _ => rfl⟩
  | s :: slots, t, once => by
    obtain ⟨fresh, once⟩ := List.nodup_cons.mp once
    obtain ⟨count, ordinal, free, entries⟩ := dropAll_eq slots (t.drop s) once
    refine ⟨count, ordinal, ?_, fun i => ?_⟩
    · rw [List.foldl_cons, free, List.reverse_cons, List.append_assoc]
      rfl
    · rw [List.foldl_cons, entries, drop]
      simp only [giveBack_entries, put_entries, List.mem_cons]
      by_cases here : i = s
      · subst here
        simp [fresh]
      · simp [here]

/-- The loop drops the slots of the list it is on, whatever fuel is left over. -/
theorem forgetLoop_chain : ∀ (slots : List Nat) (fuel i : Nat) (t : Table), slots.length ≤ fuel →
    slots.Nodup → Chain t.entries i slots → forgetLoop fuel i t = slots.foldl drop t
  | [], fuel, i, t, _, _, chain => by
    cases chain
    cases fuel with
    | zero => rfl
    | succ fuel => rw [forgetLoop, if_pos rfl]; rfl
  | s :: slots, fuel, i, t, enough, once, chain => by
    cases chain with
    | cons nonzero rest =>
      obtain ⟨fresh, once⟩ := List.nodup_cons.mp once
      obtain ⟨fuel, rfl⟩ := Nat.exists_eq_add_one_of_ne_zero (n := fuel) (by
        rw [List.length_cons] at enough
        omega)
      rw [forgetLoop, if_neg nonzero, List.foldl_cons]
      refine forgetLoop_chain slots fuel _ _ (by simpa using enough) once
        (rest.congr fun j member => ?_)
      have other : j ≠ s := fun here => fresh (here ▸ member)
      simp [drop, other]

theorem forgetLoop_ordinal : ∀ (fuel i : Nat) (t : Table), (forgetLoop fuel i t).ordinal = t.ordinal
  | 0, _, _ => rfl
  | fuel + 1, i, t => by
    rw [forgetLoop]
    split
    · rfl
    · exact forgetLoop_ordinal fuel _ _

theorem forgetChildren_ordinal (t : Table) (pool : Nat) :
    (t.forgetChildren pool).ordinal = t.ordinal := by
  unfold forgetChildren
  split
  · rfl
  · exact forgetLoop_ordinal _ _ _

theorem Sound.forgetChildren (sound : t.Sound kids) (pos : 0 < pool) (inside : pool < t.count)
    (live : (t.entries pool).host ≠ 0) :
    Loose t kids pool (kids pool) ∧ Released t (t.forgetChildren pool) pool (kids pool) := by
  have mine : pool ∉ kids pool := fun member => by
    have first := (sound.owned pool pool member).2.2.2.2
    have chain := sound.chain pool pos inside
    rw [first] at chain
    rw [chain.zero] at member
    cases member
  have chain : Chain (t.put pool { t.entries pool with firstChild := 0 }).entries
      (t.entries pool).firstChild (kids pool) :=
    (sound.chain pool pos inside).congr fun s member => by
      have other : s ≠ pool := fun here => mine (here ▸ member)
      rw [put_entries, if_neg other]
  have result : t.forgetChildren pool =
      (kids pool).foldl drop (t.put pool { t.entries pool with firstChild := 0 }) := by
    rw [Table.forgetChildren, if_neg (by omega)]
    exact forgetLoop_chain _ _ _ _ (sound.kids_length pool) (sound.acyclic pool) chain
  obtain ⟨count, ordinal, free, entries⟩ :=
    dropAll_eq (kids pool) (t.put pool { t.entries pool with firstChild := 0 }) (sound.acyclic pool)
  constructor
  · refine ⟨sound.acyclic pool, fun s member => ?_, fun q other c member back => ?_,
      fun c member => member, pos, inside, sound.not_free live⟩
    · obtain ⟨low, high, apart, -, childless⟩ := sound.owned pool s member
      exact ⟨low, high, apart, childless⟩
    · have first := (sound.owned q c member).2.2.2.1
      have second := (sound.owned pool c back).2.2.2.1
      exact other (first.symm.trans second)
  · rw [result]
    refine ⟨count, ordinal, free, fun i member => ?_, fun i kept other => ?_, fun kept => ?_⟩
    · have other : i ≠ pool := fun here => mine (here ▸ member)
      rw [entries, if_pos member, put_entries, if_neg other]
      exact ⟨rfl, rfl, rfl⟩
    · rw [entries, if_neg kept, put_entries, if_neg other]
    · rw [entries, if_neg kept, put_entries, if_pos rfl]

end Table

end MiniBox.Vulkan
