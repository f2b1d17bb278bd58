import MiniBox.Vulkan.Slots

/-!
# Handles of the Vulkan bridge

A handle that has been given names a slot of a context that is over, or a generation of its
slot that is over, or what the slot holds.  `Table.Ages` is what every operation does to a
table as handles see it: contexts and generations only go forward, and a slot that holds
nothing and is not free stays so.  So a handle that is dead stays dead, and a handle that is
given is none that was given before.

A generation is a byte.  All this holds while no slot is given back for the 256th time in
one context.
-/

namespace MiniBox.Vulkan

namespace Table

variable {t t' t'' : Table} {kids : Nat → List Nat}

/-! ## What time does to handles -/

variable {id : UInt64} {gen : UInt8} {pool : Nat}

/-- A slot, as its handles see it. -/
def SlotAges (t t' : Table) (s : Nat) : Prop :=
  (t.entries s).gen < (t'.entries s).gen ∨
    (t.entries s).gen = (t'.entries s).gen ∧
      (s ∉ t.free → s ∉ t'.free ∧ ((t.entries s).host = 0 → (t'.entries s).host = 0))

/-- A table, as the handles that were given see it. -/
def Ages (t t' : Table) : Prop :=
  t.ordinal < t'.ordinal ∨
    t.ordinal = t'.ordinal ∧ t.count ≤ t'.count ∧ ∀ s, 0 < s → s < t.count → SlotAges t t' s

theorem Ages.refl (t : Table) : Ages t t :=
  .inr ⟨rfl, Nat.le_refl _, fun _ _ _ => .inr ⟨rfl, fun loose => ⟨loose, id⟩⟩⟩

/-- A handle that may have been given. -/
def Known (t : Table) (id : UInt64) : Prop :=
  (id >>> 32).toNat < t.ordinal.toNat ∨
    (id >>> 32).toNat = t.ordinal.toNat ∧ 0 < slotOf id ∧ slotOf id < t.count ∧
      (genOf id < (t.entries (slotOf id)).gen ∨
        genOf id = (t.entries (slotOf id)).gen ∧ slotOf id ∉ t.free)

/-- A handle that names nothing, now and later. -/
def Past (t : Table) (id : UInt64) : Prop :=
  (id >>> 32).toNat < t.ordinal.toNat ∨
    (id >>> 32).toNat = t.ordinal.toNat ∧ 0 < slotOf id ∧ slotOf id < t.count ∧
      (genOf id < (t.entries (slotOf id)).gen ∨
        genOf id = (t.entries (slotOf id)).gen ∧ slotOf id ∉ t.free ∧
          (t.entries (slotOf id)).host = 0)

/-- A handle of a context or a generation that is over, or of a slot of which something holds. -/
def Named (t : Table) (id : UInt64) (now : Prop) : Prop :=
  (id >>> 32).toNat < t.ordinal.toNat ∨
    (id >>> 32).toNat = t.ordinal.toNat ∧ 0 < slotOf id ∧ slotOf id < t.count ∧
      (genOf id < (t.entries (slotOf id)).gen ∨ genOf id = (t.entries (slotOf id)).gen ∧ now)

theorem Named.ages {now later : Prop} (named : Named t id now) (ages : Ages t t')
    (still : (slotOf id ∉ t.free → slotOf id ∉ t'.free ∧
      ((t.entries (slotOf id)).host = 0 → (t'.entries (slotOf id)).host = 0)) → now → later) :
    Named t' id later := by
  rcases ages with less | ⟨same, more, ages⟩
  · have less := UInt32.lt_iff_toNat_lt.mp less
    rcases named with before | ⟨now, -⟩
    · exact .inl (Nat.lt_trans before less)
    · exact .inl (now ▸ less)
  · rcases named with before | ⟨now, pos, inside, gen⟩
    · exact .inl (same ▸ before)
    · refine .inr ⟨same ▸ now, pos, Nat.lt_of_lt_of_le inside more, ?_⟩
      rcases ages _ pos inside with ended | ⟨same, slot⟩
      · rcases gen with before | ⟨now, -⟩
        · exact .inl (UInt8.lt_trans before ended)
        · exact .inl (now ▸ ended)
      · rcases gen with before | ⟨now, holds⟩
        · exact .inl (same ▸ before)
        · exact .inr ⟨now.trans same, still slot holds⟩

theorem Known.ages (known : Known t id) (ages : Ages t t') : Known t' id :=
  Named.ages known ages fun slot loose => (slot loose).1

theorem Past.ages (past : Past t id) (ages : Ages t t') : Past t' id :=
  Named.ages past ages fun slot ⟨loose, dead⟩ => slot loose |>.imp_right fun stays => stays dead

/-- What is past is not taken, as whatever it is passed. -/
theorem Past.entry (past : Past t id) (kind : Kind) : t.entry id kind = none := by
  cases found : t.entry id kind with
  | none => rfl
  | some e =>
    obtain ⟨ordinal, -, -, rfl, gen, live, -⟩ := entry_eq_some found
    rcases past with before | ⟨-, -, -, before | ⟨-, -, dead⟩⟩
    · omega
    · rw [gen] at before
      exact absurd before (UInt8.lt_irrefl _)
    · exact absurd dead live

/-! ## What operations do to handles -/

theorem Quieter.ages (quieter : Quieter t t') : Ages t t' := by
  refine .inr ⟨quieter.ordinal.symm, Nat.le_of_eq quieter.count.symm, fun s _ _ => .inr ?_⟩
  rw [(quieter.fields s).2.2.2.2, quieter.free]
  exact ⟨rfl, fun loose => ⟨loose, quieter.host_zero⟩⟩

theorem gen_lt_succ (more : gen ≠ 255) : gen < gen + 1 := by
  have limit := gen.toNat_lt
  have apart : gen.toNat ≠ 255 := fun same => more (UInt8.toNat_inj.mp same)
  rw [UInt8.lt_iff_toNat_lt, UInt8.toNat_add]
  show gen.toNat < (gen.toNat + 1) % 2 ^ 8
  omega

theorem Released.ages {slots : List Nat} (released : Released t t' pool slots)
    (more : ∀ s ∈ slots, (t.entries s).gen ≠ 255) : Ages t t' := by
  refine .inr ⟨released.ordinal.symm, Nat.le_of_eq released.count.symm, fun s _ _ => ?_⟩
  by_cases back : s ∈ slots
  · refine .inl ?_
    rw [(released.ended s back).2.2]
    exact gen_lt_succ (more s back)
  · have same : (t'.entries s).gen = (t.entries s).gen ∧ (t'.entries s).host =
      (t.entries s).host := by
      by_cases here : s = pool
      · subst here
        rw [released.pool back]
        exact ⟨rfl, rfl⟩
      · rw [released.kept s back here]
        exact ⟨rfl, rfl⟩
    refine .inr ⟨same.1.symm, fun loose => ⟨?_, fun dead => same.2.trans dead⟩⟩
    rw [released.free, List.mem_append, List.mem_reverse]
    rintro (wrong | wrong)
    · exact back wrong
    · exact loose wrong

theorem Takes.ages {slot parent : Nat} (sound : t.Sound kids) (takes : Takes t t' slot)
    (same : slot ∈ t.free → gen = (t.entries slot).gen) {kind : Kind} (host : UInt64)
    (issues : t.Issues kind parent) : Ages t (t'.place slot gen kind host parent).2 := by
  have apart := takes.parent_ne sound issues
  refine .inr ⟨?_, ?_, fun s _ inside => .inr ?_⟩
  · rw [place_ordinal, takes.ordinal]
  · rw [place_count]
    exact takes.more
  · rw [place_entries apart, place_free, takes.left, takes.entries]
    by_cases here : s = slot
    · subst here
      rw [if_pos rfl]
      have free := takes.unused.resolve_right (by omega)
      exact ⟨(same free).symm, fun loose => absurd free loose⟩
    · rw [if_neg here]
      refine ⟨by split <;> rfl, fun loose => ⟨fun wrong => loose wrong.1, fun dead => ?_⟩⟩
      split <;> exact dead

/-! ## What operations give and forget -/

/-- The list of a pool, as `vkb_forget_children` follows it. -/
def follow (t : Table) : Nat → Nat → List Nat
  | 0, _ => []
  | fuel + 1, i => if i = 0 then [] else i :: follow t fuel (t.entries i).nextSibling

def children (t : Table) (pool : Nat) : List Nat := t.follow t.count (t.entries pool).firstChild

def lives (t : Table) (i : Nat) : Bool := (t.entries i).host != 0

/-- The handles of the slots that hold something and are of a sort. -/
def liveWhere (t : Table) (p : Nat → Bool) : List UInt64 :=
  ((List.range t.count).filter fun i => 1 ≤ i ∧ t.lives i ∧ p i).map t.handle

theorem follow_chain : ∀ (slots : List Nat) (fuel i : Nat), slots.length ≤ fuel →
    Chain t.entries i slots → t.follow fuel i = slots
  | [], fuel, i, _, chain => by
    cases chain
    cases fuel with
    | zero => rfl
    | succ fuel => rw [follow, if_pos rfl]
  | s :: slots, fuel, i, enough, chain => by
    cases chain with
    | cons nonzero rest =>
      cases fuel with
      | zero => cases enough
      | succ fuel =>
        rw [follow, if_neg nonzero, follow_chain slots fuel _ (by simpa using enough) rest]

theorem Sound.children (sound : t.Sound kids) (pos : 0 < pool) (inside : pool < t.count) :
    t.children pool = kids pool :=
  follow_chain _ _ _ (sound.kids_length pool) (sound.chain pool pos inside)

theorem mem_liveWhere {p : Nat → Bool} (member : id ∈ t.liveWhere p) :
    ∃ s, 0 < s ∧ s < t.count ∧ (t.entries s).host ≠ 0 ∧ p s = true ∧ t.handle s = id := by
  obtain ⟨s, among, named⟩ := List.mem_map.mp member
  obtain ⟨range, keeps⟩ := List.mem_filter.mp among
  simp only [decide_eq_true_eq] at keeps
  exact ⟨s, keeps.1, List.mem_range.mp range, by simpa [lives] using keeps.2.1, keeps.2.2, named⟩

end Table

namespace TableOp

/-- The handles an operation gives. -/
def given (t : Table) : TableOp → List UInt64
  | .register kind host parent =>
    if (t.register kind host parent).1 = 0 then [] else [(t.register kind host parent).1]
  | .intern kind host =>
    if (t.internSlot kind host).isSome then []
    else if (t.register kind host 0).1 = 0 then [] else [(t.register kind host 0).1]
  | _ => []

/-- The handles of what an operation ends. -/
def forgotten (t : Table) : TableOp → List UInt64
  | .forget id kind => if (t.entry id kind).isSome then [id] else []
  | .forgetChildren pool => ((t.children pool).filter t.lives).map t.handle
  | .destroyObjects =>
    t.liveWhere fun i => (t.entries i).parent == 0 && (t.entries i).kind.ofDevice
  | .forgetDeviceEntries => t.liveWhere t.dies
  | .destroyContext => t.liveWhere fun _ => true
  | _ => []

/-- No slot is given back whose generation is the last. -/
def Fits (t : Table) : TableOp → Prop
  | .forget id kind =>
    ∀ e, t.entry id kind = some e → e.parent = 0 → e.firstChild = 0 → e.gen ≠ 255
  | .forgetChildren pool => ∀ s ∈ t.children pool, (t.entries s).gen ≠ 255
  | _ => True

/-- How commands make operations: a pool that is named lives. -/
def Issued (t : Table) : TableOp → Prop
  | .register kind _ parent => t.Issues kind parent
  | .forgetChildren pool => 0 < pool ∧ pool < t.count ∧ (t.entries pool).host ≠ 0
  | _ => True

/-- How many ordinals an operation takes. -/
def turns : TableOp → Nat
  | .destroyContext => 1
  | .nextOrdinal => 1
  | _ => 0

end TableOp

/-- A table, with every handle that was given and every handle that was forgotten. -/
structure Table.Told (t : Table) (given forgotten : List UInt64) : Prop where
  distinct : given.Nodup
  known : ∀ id ∈ given, t.Known id
  past : ∀ id ∈ forgotten, t.Past id

section Steps

variable {t t' : Table} {kids : Nat → List Nat}

open Table

variable {s parent : Nat} {kind : Kind}

namespace Table

theorem Sound.handle (sound : t.Sound kids) (inside : s < t.count) :
    slotOf (t.handle s) = s ∧ genOf (t.handle s) = (t.entries s).gen ∧
      (t.handle s >>> 32).toNat = t.ordinal.toNat := by
  have small := Nat.lt_of_lt_of_le inside sound.few
  exact ⟨slotOf_handleOf _ _ small, genOf_handleOf _ _ small, ordinal_handleOf _ _ small⟩

/-- What is in a slot ends, and its handle with it. -/
theorem Quieter.past (quieter : Quieter t t') (sound : t.Sound kids) (pos : 0 < s)
    (inside : s < t.count) (live : (t.entries s).host ≠ 0) (dead : (t'.entries s).host = 0) :
    Past t' (t.handle s) := by
  obtain ⟨slot, gen, ordinal⟩ := sound.handle inside
  refine .inr ⟨by rw [ordinal, quieter.ordinal], ?_⟩
  rw [slot, gen, quieter.count, quieter.free, (quieter.fields s).2.2.2.2]
  exact ⟨pos, inside, .inr ⟨rfl, sound.not_free live, dead⟩⟩

theorem Released.past {pool : Nat} {slots : List Nat} (released : Released t t' pool slots)
    (sound : t.Sound kids) (pos : 0 < s) (inside : s < t.count) (back : s ∈ slots)
    (more : (t.entries s).gen ≠ 255) : Past t' (t.handle s) := by
  obtain ⟨slot, gen, ordinal⟩ := sound.handle inside
  refine .inr ⟨by rw [ordinal, released.ordinal], ?_⟩
  rw [slot, gen, released.count, (released.ended s back).2.2]
  exact ⟨pos, inside, .inl (gen_lt_succ more)⟩

/-- A handle that is taken is the one that names its slot. -/
theorem Sound.handle_eq (sound : t.Sound kids) {id : UInt64} {e : Entry}
    (found : t.entry id kind = some e) : t.handle (slotOf id) = id := by
  obtain ⟨ordinal, pos, inside, rfl, gen, -, -⟩ := entry_eq_some found
  have small := Nat.lt_of_lt_of_le inside sound.few
  refine UInt64.toNat_inj.mp ?_
  rw [Table.handle, handleOf_toNat _ _ small, gen, ← ordinal, genOf_toNat, ordinal_toNat, slotOf_eq]
  omega

/-- What `vkb_register` gives is new. -/
theorem Sound.register_given (sound : t.Sound kids) (host : UInt64)
    (issues : t.Issues kind parent) : ∀ id ∈ TableOp.given t (.register kind host parent),
    ¬ t.Known id ∧ (t.register kind host parent).2.Known id := by
  intro id member
  rw [TableOp.given] at member
  split at member
  · cases member
  · rename_i some_
    rw [List.mem_singleton] at member
    subst member
    rcases register_cases ⟨kids, sound⟩ kind host parent with
      nothing | ⟨-, t', slot, gen, takes, same, again⟩
    · rw [nothing] at some_
      exact absurd rfl some_
    · have small : slot < 2 ^ 24 := Nat.lt_of_lt_of_le takes.inside.2 takes.few
      have slotIs := slotOf_handleOf t'.ordinal gen small
      have genIs := genOf_handleOf t'.ordinal gen small
      have ordinalIs := ordinal_handleOf t'.ordinal gen small
      rw [same, place_handle]
      constructor
      · rintro (before | ⟨-, -, inside, gens⟩)
        · rw [ordinalIs, takes.ordinal] at before
          omega
        · rw [slotIs] at inside gens
          have free := takes.unused.resolve_right (by omega)
          rw [genIs, again free] at gens
          rcases gens with less | ⟨-, loose⟩
          · exact absurd less (UInt8.lt_irrefl _)
          · exact loose free
      · refine .inr ⟨by rw [ordinalIs, place_ordinal], ?_⟩
        rw [slotIs, genIs, place_count, place_free, place_entries (takes.parent_ne sound issues),
          if_pos rfl, takes.left]
        exact ⟨takes.inside.1, takes.inside.2, .inr ⟨rfl, fun wrong => wrong.2 rfl⟩⟩

theorem Sound.register (sound : t.Sound kids) (host : UInt64) (issues : t.Issues kind parent) :
    (∃ kids', (t.register kind host parent).2.Sound kids') ∧
      Ages t (t.register kind host parent).2 := by
  rcases register_cases ⟨kids, sound⟩ kind host parent with
    nothing | ⟨-, t', slot, gen, takes, same, again⟩
  · rw [nothing]
    exact ⟨⟨kids, sound⟩, .refl t⟩
  · rw [same]
    exact ⟨⟨_, sound.place takes host gen issues⟩, takes.ages sound again host issues⟩

theorem destroyFrom_host : ∀ (n : Nat) (t : Table) {i : Nat}, 0 < i → i ≤ n →
    (t.entries i).parent = 0 → (t.entries i).kind.ofDevice = true →
    ((destroyFrom n t).2.entries i).host = 0
  | 0, t, i, pos, inside, _, _ => by omega
  | n + 1, t, i, pos, inside, root, kind => by
    by_cases here : i = n + 1
    · subst here
      rw [destroyFrom]
      dsimp only
      split
      · rename_i skip
        refine (quieter_destroyFrom n t).host_zero ?_
        rcases skip with dead | owned | other
        · exact dead
        · exact absurd root owned
        · exact absurd kind other
      · exact (quieter_destroyFrom n _).host_zero (by simp)
    · have less : i ≤ n := by omega
      rw [destroyFrom]
      dsimp only
      split
      · exact destroyFrom_host n t pos less root kind
      · refine destroyFrom_host n _ pos less ?_ ?_
        · simpa [here] using root
        · simpa [here] using kind

/-- What an operation does to the table and its handles. -/
structure Steps (t t' : Table) (given forgotten : List UInt64) : Prop where
  sound : ∃ kids, t'.Sound kids
  ages : Ages t t'
  distinct : given.Nodup
  fresh : ∀ id ∈ given, ¬ t.Known id ∧ t'.Known id
  past : ∀ id ∈ forgotten, t'.Past id

theorem Told.steps {given forgotten new ended : List UInt64} (told : t.Told given forgotten)
    (steps : Steps t t' new ended) : t'.Told (given ++ new) (forgotten ++ ended) where
  distinct := List.nodup_append.mpr ⟨told.distinct, steps.distinct, fun a before b now same =>
    (steps.fresh b now).1 (same ▸ told.known a before)⟩
  known := fun id member => by
    rcases List.mem_append.mp member with before | now
    · exact (told.known id before).ages steps.ages
    · exact (steps.fresh id now).2
  past := fun id member => by
    rcases List.mem_append.mp member with before | now
    · exact (told.past id before).ages steps.ages
    · exact steps.past id now

theorem Steps.register (sound : t.Sound kids) (host : UInt64) (issues : t.Issues kind parent) :
    Steps t (t.register kind host parent).2
      (TableOp.given t (.register kind host parent)) [] := by
  obtain ⟨sound', ages⟩ := sound.register host issues
  refine ⟨sound', ages, ?_, sound.register_given host issues, List.forall_mem_nil _⟩
  rw [TableOp.given]
  split
  · exact List.nodup_nil
  · exact List.nodup_singleton _

theorem Quieter.steps (quieter : Quieter t t') (sound : t.Sound kids) {ended : List UInt64}
    (dead : ∀ id ∈ ended, ∃ s, 0 < s ∧ s < t.count ∧ (t.entries s).host ≠ 0 ∧ t.handle s = id ∧
      (t'.entries s).host = 0) : Steps t t' [] ended := by
  refine ⟨⟨kids, quieter.sound sound⟩, quieter.ages, List.nodup_nil, List.forall_mem_nil _,
    fun id member => ?_⟩
  obtain ⟨s, pos, inside, live, rfl, ended⟩ := dead id member
  exact quieter.past sound pos inside live ended

end Table

theorem ordinal_lt_succ {ordinal : UInt32} (room : ordinal.toNat + 1 < 2 ^ 32) :
    ordinal < ordinal + 1 ∧ (ordinal + 1).toNat = ordinal.toNat + 1 := by
  have next : (ordinal + 1).toNat = ordinal.toNat + 1 := by
    rw [UInt32.toNat_add]
    show (ordinal.toNat + 1) % 2 ^ 32 = _
    omega
  exact ⟨UInt32.lt_iff_toNat_lt.mpr (by omega), next⟩

/-- A context that is over. -/
theorem Table.Sound.ended (t : Table) (ordinal : UInt32) :
    Sound { t with count := 1, free := [], ordinal } fun _ => [] := by
  have none_ : ∀ p, 0 < p → ¬ p < 1 := by omega
  exact ⟨Nat.one_pos, show 1 ≤ 2 ^ 24 by decide, List.nodup_nil, List.forall_mem_nil _,
    fun p pos inside => absurd inside (none_ p pos), fun p => List.nodup_nil,
    fun p => List.forall_mem_nil _, fun p wrong => absurd rfl wrong,
    fun p pos inside => absurd inside (none_ p pos),
    fun p pos inside => absurd inside (none_ p pos)⟩

/-- Whatever the generations and the ordinals are, the lists stay in order. -/
theorem TableOp.sound (sound : t.Sound kids) (op : TableOp) (issued : op.Issued t) :
    ∃ kids', (op.run t).Sound kids' := by
  cases op with
  | register kind host parent => exact (sound.register host issued).1
  | intern kind host =>
    simp only [run, Table.intern]
    cases t.internSlot kind host with
    | some i => exact ⟨kids, sound⟩
    | none => exact (sound.register host (.inl rfl)).1
  | forget id kind =>
    rcases forget_cases sound id kind with
      ⟨-, same⟩ | ⟨e, -, ⟨quieter, -⟩ | ⟨-, -, loose, released⟩⟩
    · exact ⟨kids, by rw [run, same]; exact sound⟩
    · exact ⟨kids, quieter.sound sound⟩
    · exact ⟨_, sound.released loose released⟩
  | forgetChildren pool =>
    obtain ⟨pos, inside, live⟩ := issued
    obtain ⟨loose, released⟩ := sound.forgetChildren pos inside live
    exact ⟨_, sound.released loose released⟩
  | destroyObjects => exact ⟨kids, (quieter_destroyFrom _ t).sound sound⟩
  | forgetDeviceEntries => exact ⟨kids, (quieter_forgetDeviceEntries t).sound sound⟩
  | destroyContext => exact ⟨_, .ended t _⟩
  | nextOrdinal =>
    exact ⟨kids, sound.some_, sound.few, sound.once, sound.idle, sound.chain, sound.acyclic,
      sound.owned, sound.pools, sound.held, sound.kinds⟩

theorem TableOp.steps (sound : t.Sound kids) (op : TableOp) (issued : op.Issued t)
    (fits : op.Fits t)
    (room : t.ordinal.toNat + op.turns < 2 ^ 32) :
    Steps t (op.run t) (op.given t) (op.forgotten t) := by
  cases op with
  | register kind host parent => exact .register sound host issued
  | intern kind host =>
    have root : t.Issues kind 0 := .inl rfl
    simp only [TableOp.run, TableOp.given, TableOp.forgotten, Table.intern]
    cases found : t.internSlot kind host with
    | some i =>
      exact ⟨⟨kids, sound⟩, .refl t, List.nodup_nil, List.forall_mem_nil _, List.forall_mem_nil _⟩
    | none => exact .register sound host root
  | forget id kind =>
    simp only [TableOp.run, TableOp.given, TableOp.forgotten]
    rcases forget_cases sound id kind with
      ⟨missing, same⟩ | ⟨e, found, ⟨quieter, ended⟩ | ⟨root, childless, loose, released⟩⟩
    · rw [missing, same]
      exact ⟨⟨kids, sound⟩, .refl t, List.nodup_nil, List.forall_mem_nil _, List.forall_mem_nil _⟩
    · obtain ⟨-, pos, inside, rfl, -, live, -⟩ := entry_eq_some found
      refine quieter.steps sound fun other member => ?_
      rw [found, Option.isSome_some, if_pos rfl, List.mem_singleton] at member
      exact ⟨slotOf id, pos, inside, live, (sound.handle_eq found).trans member.symm, ended⟩
    · obtain ⟨-, pos, inside, is, -, live, -⟩ := entry_eq_some found
      have more : (t.entries (slotOf id)).gen ≠ 255 := is ▸ fits e found root childless
      refine ⟨⟨_, sound.released loose released⟩,
        released.ages fun s member => List.mem_singleton.mp member ▸ more, List.nodup_nil,
        List.forall_mem_nil _, fun other member => ?_⟩
      rw [found, Option.isSome_some, if_pos rfl, List.mem_singleton] at member
      have past := released.past sound pos inside (List.mem_singleton.mpr rfl) more
      rw [sound.handle_eq found] at past
      rw [member]
      exact past
  | forgetChildren pool =>
    obtain ⟨pos, inside, live⟩ := issued
    obtain ⟨loose, released⟩ := sound.forgetChildren pos inside live
    have list := sound.children pos inside
    have more : ∀ s ∈ kids pool, (t.entries s).gen ≠ 255 := fun s member =>
      fits s (by rw [list]; exact member)
    refine ⟨⟨_, sound.released loose released⟩, released.ages more, List.nodup_nil,
      List.forall_mem_nil _, fun id member => ?_⟩
    simp only [TableOp.forgotten, list] at member
    obtain ⟨s, among, rfl⟩ := List.mem_map.mp member
    have back := (List.mem_filter.mp among).1
    obtain ⟨low, high, -⟩ := sound.owned pool s back
    exact released.past sound low high back (more s back)
  | destroyObjects =>
    refine (quieter_destroyFrom _ t).steps sound fun id member => ?_
    obtain ⟨s, pos, inside, live, sort, named⟩ := mem_liveWhere member
    simp only [Bool.and_eq_true, beq_iff_eq] at sort
    exact ⟨s, pos, inside, live, named, destroyFrom_host _ t pos (by omega) sort.1 sort.2⟩
  | forgetDeviceEntries =>
    refine (quieter_forgetDeviceEntries t).steps sound fun id member => ?_
    obtain ⟨s, pos, inside, live, sort, named⟩ := mem_liveWhere member
    refine ⟨s, pos, inside, live, named, ?_⟩
    show Entry.host (if t.dies s then _ else _) = 0
    rw [if_pos sort]
  | destroyContext =>
    obtain ⟨later, -⟩ := ordinal_lt_succ room
    refine ⟨TableOp.sound sound .destroyContext trivial, .inl later, List.nodup_nil,
      List.forall_mem_nil _, fun id member => ?_⟩
    obtain ⟨s, -, inside, -, -, rfl⟩ := mem_liveWhere member
    refine .inl ?_
    rw [(sound.handle inside).2.2]
    exact UInt32.lt_iff_toNat_lt.mp later
  | nextOrdinal =>
    obtain ⟨later, -⟩ := ordinal_lt_succ room
    exact ⟨TableOp.sound sound .nextOrdinal trivial, .inl later, List.nodup_nil,
      List.forall_mem_nil _, List.forall_mem_nil _⟩

end Steps

/-! ## Commands -/

/-- What holds of each operation of a list, made one after the other. -/
def Along (P : Table → TableOp → Prop) : Table → List TableOp → Prop
  | _, [] => True
  | t, op :: ops => P t op ∧ Along P (op.run t) ops

namespace Table

def givenBy : Table → List TableOp → List UInt64
  | _, [] => []
  | t, op :: ops => op.given t ++ givenBy (op.run t) ops

def forgottenBy : Table → List TableOp → List UInt64
  | _, [] => []
  | t, op :: ops => op.forgotten t ++ forgottenBy (op.run t) ops

end Table

def turnsOf (ops : List TableOp) : Nat := (ops.map TableOp.turns).sum

namespace Command

/-- The handles a command gives. -/
def given (v : Context) (c : Command) : List UInt64 := v.table.givenBy (c.ops v)

/-- The handles of what a command ends. -/
def forgotten (v : Context) (c : Command) : List UInt64 := v.table.forgottenBy (c.ops v)

/-- No slot is given back for the 256th time in its context. -/
def Fits (v : Context) (c : Command) : Prop := Along (fun t op => op.Fits t) v.table (c.ops v)

/-- How many contexts a command begins. -/
def contexts (v : Context) (c : Command) : Nat := (c.ops v).count .destroyContext

end Command

section Commands

variable {t : Table} {kids : Nat → List Nat} {given forgotten : List UInt64}

open Table

variable {pool : Nat} {kind : Kind} {v : Context} {id : UInt64}

theorem Table.Sound.register_ordinal (sound : t.Sound kids) (kind : Kind) (host : UInt64)
    (parent : Nat) : (t.register kind host parent).2.ordinal = t.ordinal := by
  rcases register_cases ⟨kids, sound⟩ kind host parent with
    nothing | ⟨-, t', slot, gen, takes, same, -⟩
  · rw [nothing]
  · rw [same, place_ordinal, takes.ordinal]

theorem TableOp.run_ordinal (sound : t.Sound kids) (op : TableOp)
    (room : t.ordinal.toNat + op.turns < 2 ^ 32) :
    (op.run t).ordinal.toNat = t.ordinal.toNat + op.turns := by
  cases op with
  | register kind host parent => exact congrArg _ (sound.register_ordinal kind host parent)
  | intern kind host =>
    show (t.intern kind host).2.ordinal.toNat = _
    unfold Table.intern
    split
    · rfl
    · exact congrArg _ (sound.register_ordinal kind host 0)
  | forget id kind =>
    show (t.forget id kind).ordinal.toNat = _
    rcases forget_cases sound id kind with
      ⟨-, same⟩ | ⟨e, -, ⟨quieter, -⟩ | ⟨-, -, -, released⟩⟩
    · rw [same]
      rfl
    · rw [quieter.ordinal]
      rfl
    · rw [released.ordinal]
      rfl
  | forgetChildren pool =>
    show (t.forgetChildren pool).ordinal.toNat = _
    rw [forgetChildren_ordinal]
    rfl
  | destroyObjects =>
    show t.destroyObjects.2.ordinal.toNat = _
    rw [Table.destroyObjects, (quieter_destroyFrom _ t).ordinal]
    rfl
  | forgetDeviceEntries => rfl
  | destroyContext => exact (ordinal_lt_succ room).2
  | nextOrdinal => exact (ordinal_lt_succ room).2

theorem Table.Told.ops : ∀ (ops : List TableOp) {t : Table} {kids : Nat → List Nat}
    {given forgotten : List UInt64}, t.Sound kids → t.Told given forgotten →
    Along (fun t op => op.Issued t) t ops → Along (fun t op => op.Fits t) t ops →
    t.ordinal.toNat + turnsOf ops < 2 ^ 32 →
    (∃ kids', (ops.foldl TableOp.run t).Sound kids') ∧
      (ops.foldl TableOp.run t).Told (given ++ t.givenBy ops) (forgotten ++ t.forgottenBy ops) ∧
      (ops.foldl TableOp.run t).ordinal.toNat = t.ordinal.toNat + turnsOf ops
  | [], t, kids, given, forgotten, sound, told, _, _, _ => by
    simp only [List.foldl_nil, givenBy, forgottenBy, List.append_nil]
    exact ⟨⟨kids, sound⟩, told, rfl⟩
  | op :: ops, t, kids, given, forgotten, sound, told, issued, fits, room => by
    have sum : turnsOf (op :: ops) = op.turns + turnsOf ops := by simp [turnsOf]
    have here : t.ordinal.toNat + op.turns < 2 ^ 32 := by omega
    have steps := op.steps sound issued.1 fits.1 here
    have ordinal := op.run_ordinal sound here
    obtain ⟨kids', sound'⟩ := steps.sound
    obtain ⟨final, told', after⟩ :=
      Told.ops ops sound' (told.steps steps) issued.2 fits.2 (by omega)
    rw [List.foldl_cons, givenBy, forgottenBy, ← List.append_assoc, ← List.append_assoc]
    exact ⟨final, told', by omega⟩

/-- A pool that lives, so that something may be put in it. -/
def Table.Stands (t : Table) (pool : Nat) : Prop :=
  0 < pool ∧ pool < t.count ∧ (t.entries pool).host ≠ 0 ∧ (t.entries pool).kind.ofPool = false

theorem Table.Stands.register (sound : t.Sound kids) (stands : t.Stands pool) (host : UInt64)
    {parent : Nat} (issues : t.Issues kind parent) :
    (t.register kind host parent).2.Stands pool := by
  obtain ⟨pos, inside, live, not_⟩ := stands
  rcases register_cases ⟨kids, sound⟩ kind host parent with
    nothing | ⟨-, t', slot, gen, takes, same, -⟩
  · rw [nothing]
    exact ⟨pos, inside, live, not_⟩
  · have other := takes.ne_live sound inside live
    rw [same, Stands, place_count, place_entries (takes.parent_ne sound issues), if_neg other,
      takes.entries]
    refine ⟨pos, Nat.lt_of_lt_of_le inside takes.more, ?_⟩
    split <;> exact ⟨live, not_⟩

theorem issued_registers (of : kind.ofPool = true) :
    ∀ (made : List UInt64) {t : Table} {kids : Nat → List Nat}, t.Sound kids → t.Stands pool →
    Along (fun t op => op.Issued t) t (made.map fun host => .register kind host pool)
  | [], _, _, _, _ => trivial
  | host :: made, t, kids, sound, stands => by
    have issues : t.Issues kind pool := .inr ⟨of, stands⟩
    obtain ⟨⟨kids', sound'⟩, -⟩ := sound.register host issues
    exact ⟨issues, issued_registers of made sound' (stands.register sound host issues)⟩

/-- Operations that may be made of any table. -/
theorem issued_always {ops : List TableOp} (always : ∀ op ∈ ops, ∀ t, op.Issued t) (t : Table) :
    Along (fun t op => op.Issued t) t ops := by
  induction ops generalizing t with
  | nil => trivial
  | cons op ops ih =>
    exact ⟨always op (by simp) t, ih (fun o member => always o (by simp [member])) _⟩

theorem Context.names_eq (named : v.names id kind = true) :
    0 < slotOf id ∧ slotOf id < v.table.count ∧ (v.table.entries (slotOf id)).host ≠ 0 ∧
      (v.table.entries (slotOf id)).kind = kind := by
  obtain ⟨e, found⟩ := Option.isSome_iff_exists.mp named
  obtain ⟨-, pos, inside, rfl, -, live, kind⟩ := entry_eq_some found
  exact ⟨pos, inside, live, kind⟩

theorem Context.takes_eq (taken : v.takes ⟨id, kind, true⟩ = true) :
    id = 0 ∨ v.names id kind = true := by
  simpa [takes] using taken

theorem Context.issued_endContext (v : Context) : ∀ op ∈ v.endContext, ∀ t, op.Issued t := by
  intro op member t
  unfold endContext at member
  rcases List.mem_append.mp member with first | last
  · split at first
    · rw [List.mem_singleton.mp first]
      trivial
    · cases first
  · rw [List.mem_singleton.mp last]
    trivial

theorem along_ite {P : Table → TableOp → Prop} {c : Prop} [Decidable c] {ops : List TableOp}
    (along : c → Along P t ops) : Along P t (if c then ops else []) := by
  split
  · exact along ‹_›
  · trivial

/-- How every command makes its operations. -/
theorem Command.issued (sound : v.table.Sound kids) (c : Command) :
    Along (fun t op => op.Issued t) v.table (c.ops v) := by
  cases c with
  | createInstance made physical =>
    simp only [ops]
    split
    · trivial
    · exact ⟨.inl rfl, trivial⟩
  | enumeratePhysicalDevices instance_ => exact along_ite fun _ => ⟨trivial, trivial⟩
  | createDevice physicalDevice made =>
    simp only [ops]
    split
    · trivial
    · exact ⟨.inl rfl, trivial⟩
  | getDeviceQueue device queue => exact along_ite fun _ => ⟨trivial, trivial⟩
  | create kind device uses ok made =>
    refine along_ite fun _ => issued_always (fun op member t => ?_) _
    obtain ⟨host, -, rfl⟩ := List.mem_map.mp member
    exact .inl rfl
  | destroy kind device id => exact along_ite fun _ => ⟨trivial, trivial⟩
  | allocate pool device id uses ok made =>
    refine along_ite fun taken => ?_
    rcases Context.takes_eq taken.2.1 with null | named
    · refine issued_always (fun op member t => ?_) _
      obtain ⟨host, -, rfl⟩ := List.mem_map.mp member
      exact .inl (by rw [null]; rfl)
    · obtain ⟨pos, inside, live, kind⟩ := Context.names_eq named
      refine issued_registers (by cases pool <;> rfl) made sound ⟨pos, inside, live, ?_⟩
      rw [kind]
      cases pool <;> rfl
  | free pool device id ids =>
    refine along_ite fun _ => issued_always (fun op member t => ?_) _
    obtain ⟨child, -, rfl⟩ := List.mem_map.mp member
    trivial
  | resetDescriptorPool device id =>
    refine along_ite fun taken => ?_
    obtain ⟨pos, inside, live, -⟩ := Context.names_eq taken.2
    exact ⟨⟨pos, inside, live⟩, trivial⟩
  | destroyPool pool device id =>
    refine along_ite fun taken => ?_
    obtain ⟨pos, inside, live, -⟩ := Context.names_eq taken.2
    exact ⟨⟨pos, inside, live⟩, trivial, trivial⟩
  | destroyDevice device => exact along_ite fun _ => ⟨trivial, trivial, trivial⟩
  | destroyInstance instance_ => exact along_ite fun _ => issued_always v.issued_endContext _
  | stateLoaded =>
    refine issued_always (fun op member t => ?_) _
    rcases List.mem_append.mp member with before | last
    · exact v.issued_endContext op before t
    · rw [List.mem_singleton.mp last]
      trivial
  | shutdown => exact issued_always v.issued_endContext _

theorem turnsOf_map_le {α : Type} {f : α → TableOp} (none_ : ∀ a, (f a).turns = 0) {c : Prop}
    [Decidable c] (made : List α) (n : Nat) : turnsOf (if c then made.map f else []) ≤ n := by
  split
  · simp [turnsOf, Function.comp_def, none_]
  · exact Nat.zero_le n

theorem Context.turnsOf_endContext (v : Context) :
    turnsOf v.endContext = 1 ∧ v.endContext.count .destroyContext = 1 := by
  unfold endContext
  split <;> exact ⟨rfl, rfl⟩

/-- A command takes at most two ordinals for each context it begins. -/
theorem Command.turns_le (v : Context) (c : Command) : turnsOf (c.ops v) ≤ 2 * c.contexts v := by
  have one := v.turnsOf_endContext
  unfold contexts
  cases c with
  | create kind device uses ok made => exact turnsOf_map_le (fun _ => rfl) made _
  | allocate pool device id uses ok made => exact turnsOf_map_le (fun _ => rfl) made _
  | free pool device id ids => exact turnsOf_map_le (fun _ => rfl) ids _
  | stateLoaded =>
    show turnsOf (v.endContext ++ [.nextOrdinal]) ≤
      2 * (v.endContext ++ [TableOp.nextOrdinal]).count .destroyContext
    have sum : turnsOf (v.endContext ++ [.nextOrdinal]) = turnsOf v.endContext + 1 := by
      simp [turnsOf, TableOp.turns]
    rw [List.count_append, sum, one.1, one.2]
    decide
  | shutdown =>
    show turnsOf v.endContext ≤ 2 * v.endContext.count _
    rw [one.1, one.2]
    decide
  | destroyInstance instance_ =>
    simp only [ops]
    split
    · rw [one.1, one.2]
      decide
    · exact Nat.zero_le _
  | _ =>
    simp only [ops]
    split <;> exact Nat.zero_le _

end Commands

/-! ## Runs -/

/-- A process from its start: the context it is in, the handles it has given and those it has
forgotten, and how many contexts it has begun. -/
inductive HandleRun (allowed : Context → Command → Prop) :
    Context → List UInt64 → List UInt64 → Nat → Prop where
  | new : HandleRun allowed {} [] [] 1
  | command {v : Context} {given forgotten : List UInt64} {contexts : Nat} (c : Command) :
      HandleRun allowed v given forgotten contexts → allowed v c →
      contexts + c.contexts v < 2 ^ 31 →
      HandleRun allowed (c.run v) (given ++ c.given v) (forgotten ++ c.forgotten v)
        (contexts + c.contexts v)

theorem Command.run_table (v : Context) (c : Command) :
    (c.run v).table = (c.ops v).foldl TableOp.run v.table := by
  unfold run
  dsimp only
  split
  · rfl
  · cases c <;> rfl

theorem HandleRun.told {v : Context} {given forgotten : List UInt64} {contexts : Nat}
    (run : HandleRun (fun v c => c.Fits v) v given forgotten contexts) :
    (∃ kids, v.table.Sound kids) ∧ v.table.Told given forgotten ∧
      v.table.ordinal.toNat + 1 ≤ 2 * contexts := by
  induction run with
  | new =>
    exact ⟨⟨_, .new⟩, ⟨List.nodup_nil, List.forall_mem_nil _, List.forall_mem_nil _⟩, by decide⟩
  | @command v given forgotten contexts c _ fits few ih =>
    obtain ⟨⟨kids, sound⟩, told, ordinal⟩ := ih
    have turns := c.turns_le v
    obtain ⟨sound', told', after⟩ := told.ops (c.ops v) sound (c.issued sound) fits (by omega)
    rw [Command.run_table]
    exact ⟨sound', told', by omega⟩

/-- In every run in which no slot is given back for the 256th time in one context, no two
registrations are given the same handle and a handle that was forgotten names nothing. -/
theorem HandleRun.dead {v : Context} {given forgotten : List UInt64} {contexts : Nat}
    (run : HandleRun (fun v c => c.Fits v) v given forgotten contexts) :
    given.Nodup ∧ ∀ id ∈ forgotten, ∀ kind, v.table.entry id kind = none := by
  obtain ⟨-, told, -⟩ := run.told
  exact ⟨told.distinct, fun id member => (told.past id member).entry⟩

/-! ## One event after the other -/

section Events

variable {allowed : Context → Command → Prop} {v : Context} {given forgotten : List UInt64}
  {gen : UInt8} {t : Table} {host : UInt64} {free : List Nat}

/-- The first device of a process. -/
def deviceId : UInt64 := handleOf 1 0 3

def createEvent : Command := .create .event deviceId [] true [1]

/-- The event that was made in slot 4 with this generation. -/
def destroyEvent (gen : UInt8) : Command := .destroy .event deviceId (handleOf 1 gen 4)

/-- A process that has given out slot 4 over and over for one event after the other. -/
structure Table.Ready (t : Table) (host : UInt64) (free : List Nat) (gen : UInt8) : Prop where
  count : t.count = 5
  free : t.free = free
  ordinal : t.ordinal = 1
  device : t.entries 3 = { host := 1, kind := .device }
  slot : t.entries 4 = { host, kind := .event, gen }

theorem Table.Ready.names (ready : t.Ready host free gen) :
    (t.entry deviceId .device).isSome = true := by
  have slot : slotOf deviceId = 3 := slotOf_handleOf 1 0 (by decide)
  have ordinal : deviceId >>> 32 = t.ordinal.toUInt64 := by
    rw [ready.ordinal]
    decide
  have gen_ : genOf deviceId = 0 := genOf_handleOf 1 0 (by decide)
  rw [entry]
  dsimp only
  rw [slot, ordinal, ready.count, ready.device, gen_]
  simp

theorem Table.Ready.entry (ready : t.Ready host free gen) (live : host ≠ 0) :
    t.entry (handleOf 1 gen 4) .event = some { host, kind := .event, gen } := by
  have slot : slotOf (handleOf 1 gen 4) = 4 := slotOf_handleOf 1 gen (by decide)
  have ordinal : handleOf 1 gen 4 >>> 32 = t.ordinal.toUInt64 := by
    refine UInt64.toNat_inj.mp ?_
    rw [ordinal_handleOf 1 gen (by decide), ready.ordinal]
    rfl
  have gen_ : genOf (handleOf 1 gen 4) = gen := genOf_handleOf 1 gen (by decide)
  rw [Table.entry]
  dsimp only
  rw [slot, ordinal, ready.count, ready.slot, gen_]
  simp [live]

theorem createEvent_run (ready : v.table.Ready 0 [4] gen) :
    (createEvent.run v).table.Ready 1 [] gen ∧ createEvent.given v = [handleOf 1 gen 4] ∧
      createEvent.forgotten v = [] ∧ createEvent.contexts v = 0 ∧ createEvent.Fits v := by
  have ops : createEvent.ops v = [.register .event 1 0] := by
    have named : v.names deviceId .device = true := ready.names
    simp [createEvent, Command.ops, named, Kind.ofDevice]
  have made : v.table.register .event 1 0 =
      Table.place { v.table with free := [] } 4 gen .event 1 0 := by
    rw [Table.register, if_neg (by decide), ready.free]
    dsimp only
    rw [ready.slot]
  have nonzero : handleOf 1 gen 4 ≠ 0 := fun zero => by
    have slot := @slotOf_handleOf 1 gen 4 (by decide)
    rw [zero] at slot
    exact absurd slot (by decide)
  have id : (v.table.register .event 1 0).1 = handleOf 1 gen 4 := by
    rw [made, Table.place_handle]
    show handleOf v.table.ordinal gen 4 = _
    rw [ready.ordinal]
  refine ⟨?_, ?_, ?_, ?_, ?_⟩
  · rw [Command.run_table, ops]
    show (v.table.register .event 1 0).2.Ready 1 [] gen
    rw [made]
    refine ⟨ready.count, rfl, ready.ordinal, ?_, ?_⟩
    · rw [Table.place_entries (by decide)]
      exact ready.device
    · rw [Table.place_entries (by decide)]
      rfl
  · rw [Command.given, ops, Table.givenBy, Table.givenBy, TableOp.given, id, if_neg nonzero]
    rfl
  · rw [Command.forgotten, ops]
    rfl
  · rw [Command.contexts, ops]
    rfl
  · rw [Command.Fits, ops]
    exact ⟨trivial, trivial⟩

theorem destroyEvent_run (ready : v.table.Ready 1 [] gen) :
    ((destroyEvent gen).run v).table.Ready 0 [4] (gen + 1) ∧ (destroyEvent gen).given v = [] ∧
      (destroyEvent gen).forgotten v = [handleOf 1 gen 4] ∧ (destroyEvent gen).contexts v = 0 ∧
      (gen ≠ 255 → (destroyEvent gen).Fits v) := by
  have found := ready.entry (by decide)
  have slot : slotOf (handleOf 1 gen 4) = 4 := slotOf_handleOf 1 gen (by decide)
  have ops : (destroyEvent gen).ops v = [.forget (handleOf 1 gen 4) .event] := by
    have named : v.names deviceId .device = true := ready.names
    have event : v.names (handleOf 1 gen 4) .event = true := by rw [Context.names, found]; rfl
    simp [destroyEvent, Command.ops, named, event, Kind.ofDevice]
  refine ⟨?_, ?_, ?_, ?_, fun more => ?_⟩
  · rw [Command.run_table, ops]
    show (v.table.forget (handleOf 1 gen 4) .event).Ready 0 [4] (gen + 1)
    rw [Table.forget, found, slot]
    refine ⟨ready.count, ?_, ready.ordinal, ?_, ?_⟩
    · show [4] ++ v.table.free = [4]
      rw [ready.free]
      rfl
    · simp [ready.device]
    · simp
  · rw [Command.given, ops]
    rfl
  · rw [Command.forgotten, ops, Table.forgottenBy, Table.forgottenBy, TableOp.forgotten, found]
    rfl
  · rw [Command.contexts, ops]
    rfl
  · rw [Command.Fits, ops]
    refine ⟨fun e is _ _ => ?_, trivial⟩
    rw [found] at is
    cases is
    exact more

/-- A process with an instance and a device. -/
def Context.started : Context :=
  let v := (Command.createInstance 1 1).run {}
  let v := (Command.enumeratePhysicalDevices (handleOf 1 0 1)).run v
  (Command.createDevice (handleOf 1 0 2) 1).run v

namespace HandleRun

theorem started (all : ∀ v c, c.Fits v → allowed v c) :
    HandleRun allowed .started [handleOf 1 0 1, handleOf 1 0 2, deviceId] [] 1 := by
  have run := command (.createInstance 1 1) .new (all _ _ ⟨trivial, trivial⟩) (by decide)
  have run := run.command (.enumeratePhysicalDevices (handleOf 1 0 1)) (all _ _ ⟨trivial, trivial⟩)
    (by decide)
  exact run.command (.createDevice (handleOf 1 0 2) 1) (all _ _ ⟨trivial, trivial⟩) (by decide)

/-- An event more. -/
theorem another (run : HandleRun allowed v given forgotten 1)
    (ready : v.table.Ready 0 [4] gen) (create : allowed v createEvent)
    (destroy : allowed (createEvent.run v) (destroyEvent gen)) :
    ∃ v', HandleRun allowed v' (given ++ [handleOf 1 gen 4]) (forgotten ++ [handleOf 1 gen 4]) 1 ∧
      v'.table.Ready 0 [4] (gen + 1) := by
  obtain ⟨made, gave, forgot, contexts, -⟩ := createEvent_run ready
  obtain ⟨ended, gave', forgot', contexts', -⟩ := destroyEvent_run made
  have run := run.command createEvent create (by rw [contexts]; decide)
  rw [contexts, gave, forgot] at run
  have run := run.command (destroyEvent gen) destroy (by rw [contexts']; decide)
  rw [contexts', gave', forgot', List.append_nil, List.append_nil] at run
  exact ⟨_, run, ended⟩

/-- The first event. -/
theorem first (all : ∀ v c, c.Fits v → allowed v c) : ∃ v given forgotten,
    HandleRun allowed v given forgotten 1 ∧ v.table.Ready 0 [4] 1 ∧
      handleOf 1 0 4 ∈ given ∧ handleOf 1 0 4 ∈ forgotten := by
  have made : (createEvent.run .started).table.Ready 1 [] 0 :=
    ⟨by decide, by decide, by decide, by decide, by decide⟩
  obtain ⟨ended, -, forgot, contexts, fits⟩ := destroyEvent_run made
  have run := (started all).command createEvent (all _ _ ⟨trivial, trivial⟩) (by decide)
  have run := run.command (destroyEvent 0) (all _ _ (fits (by decide))) (by rw [contexts]; decide)
  refine ⟨_, _, _, run, ended, by decide, ?_⟩
  rw [forgot]
  exact List.mem_append_right _ List.mem_cons_self

theorem many : ∀ (n : Nat) {v : Context} {given forgotten : List UInt64} {gen : UInt8},
    HandleRun (fun _ _ => True) v given forgotten 1 → v.table.Ready 0 [4] gen →
    ∃ v' given' forgotten', HandleRun (fun _ _ => True) v' given' forgotten' 1 ∧
      v'.table.Ready 0 [4] (gen + UInt8.ofNat n) ∧ given ⊆ given' ∧ forgotten ⊆ forgotten'
  | 0, v, given, forgotten, gen, run, ready => by
    refine ⟨v, given, forgotten, run, ?_, fun _ => id, fun _ => id⟩
    rw [show gen + UInt8.ofNat 0 = gen from UInt8.add_zero gen]
    exact ready
  | n + 1, v, given, forgotten, gen, run, ready => by
    obtain ⟨v', run', ready'⟩ := run.another ready trivial trivial
    obtain ⟨v'', given', forgotten', run'', ready'', gave, forgot⟩ := many n run' ready'
    refine ⟨v'', given', forgotten', run'', ?_, fun _ member => gave
      (List.mem_append_left _ member),
      fun _ member => forgot (List.mem_append_left _ member)⟩
    rw [UInt8.ofNat_add, UInt8.add_comm (UInt8.ofNat n), ← UInt8.add_assoc]
    exact ready''

end HandleRun

end Events

/-- The handle of a destroyed event names nothing, and the next event, which is given the same
slot, has another. -/
theorem HandleRun.dead_event : ∃ v given forgotten,
    HandleRun (fun v c => c.Fits v) v given forgotten 1 ∧ given.Nodup ∧
      handleOf 1 0 4 ∈ forgotten ∧ (∀ kind, v.table.entry (handleOf 1 0 4) kind = none) ∧
      handleOf 1 1 4 ∈ given ∧ (v.table.entry (handleOf 1 1 4) .event).isSome = true := by
  obtain ⟨v, given, forgotten, run, ready, -, forgot⟩ := first fun _ _ fits => fits
  obtain ⟨made, new, -, contexts, fits⟩ := createEvent_run ready
  have run := run.command createEvent fits (by rw [contexts]; decide)
  rw [contexts] at run
  obtain ⟨distinct, dead⟩ := dead run
  have forgot := List.mem_append_left (createEvent.forgotten v) forgot
  refine ⟨_, _, _, run, distinct, forgot, dead _ forgot, ?_, ?_⟩
  · rw [new]
    exact List.mem_append_right _ List.mem_cons_self
  · rw [made.entry (by decide)]
    rfl

/-- After 256 events in one slot the handle of the first is given again, and what was forgotten
names the new one. -/
theorem HandleRun.handle_again : ∃ v given forgotten,
    HandleRun (fun _ _ => True) v given forgotten 1 ∧ ¬ given.Nodup ∧
      ∃ id ∈ forgotten, (v.table.entry id .event).isSome = true := by
  obtain ⟨v, given, forgotten, run, ready, gave, forgot⟩ :=
    @first (fun _ _ => True) fun _ _ _ => trivial
  obtain ⟨v, given', forgotten', run, ready, more, more'⟩ := many 255 run ready
  rw [show 1 + UInt8.ofNat 255 = 0 from rfl] at ready
  obtain ⟨made, new, -, contexts, -⟩ := createEvent_run ready
  have run := run.command createEvent trivial (by rw [contexts]; decide)
  refine ⟨_, _, _, by rwa [contexts] at run, fun distinct => ?_, handleOf 1 0 4, ?_, ?_⟩
  · rw [new, List.nodup_append] at distinct
    exact distinct.2.2 _ (more gave) _ List.mem_cons_self rfl
  · exact List.mem_append_left _ (more' forgot)
  · rw [made.entry (by decide)]
    rfl

end MiniBox.Vulkan
