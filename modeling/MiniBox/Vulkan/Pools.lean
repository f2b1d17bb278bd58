import MiniBox.Vulkan.Handles

/-!
# What dies with a pool

The slots of the handle table are on three kinds of lists that share them: the slots that may
be given out again, the list of each pool, and none.  A child that is freed early stays on its
pool's list, and the slot of a pool is itself given out again.  `Passes` are the tables a
process goes through, between its commands and inside of them.  In each of them the lists are
in order, so that `vkb_register` takes a slot nothing else has and `vkb_forget_children` ends
what was allocated from its pool.

An entry knows its pool by the pool's slot, which is not the pool: the slot may be another's by
then.  A `Ledger` numbers the registrations, and so tells one pool from the next in its slot.
-/

namespace MiniBox.Vulkan

/-! ## Who was registered when -/

/-- The registrations so far: how many, and for each slot the number of the last one in it and
that of the pool it was allocated from, 0 for none. -/
structure Ledger where
  made : Nat := 0
  serial : Nat → Nat := fun _ => 0
  pool : Nat → Nat := fun _ => 0

namespace Ledger

def add (l : Ledger) (slot parent : Nat) : Ledger where
  made := l.made + 1
  serial := Function.update l.serial slot (l.made + 1)
  pool := Function.update l.pool slot (if parent = 0 then 0 else l.serial parent)

/-- The ledger when an operation has been made of a table. -/
def after (l : Ledger) (t : Table) (op : TableOp) : Ledger :=
  match op with
  | .register _ _ parent => (op.given t).foldl (fun l id => l.add (slotOf id) parent) l
  | .intern _ _ => (op.given t).foldl (fun l id => l.add (slotOf id) 0) l
  | _ => l

/-- A ledger that tells the slots of a table apart. -/
structure Tells (l : Ledger) (t : Table) : Prop where
  past : ∀ s, l.serial s ≤ l.made
  numbered : ∀ s, 0 < s → s < t.count → 0 < l.serial s
  apart : ∀ s, 0 < s → s < t.count → ∀ s', 0 < s' → s' < t.count → l.serial s = l.serial s' → s = s'
  /-- a pool is still the one that was allocated from -/
  pool : ∀ c, 0 < c → c < t.count → (t.entries c).host ≠ 0 →
    l.pool c = if (t.entries c).parent = 0 then 0 else l.serial (t.entries c).parent

end Ledger

/-! ## Tables on the way -/

/-- The tables of a process from its start: the context when the command at hand is done, what
that command has still to do, and the table now with its ledger. -/
inductive Passes : Context → List TableOp → Table → Ledger → Prop where
  | new : Passes {} [] {} {}
  | command {v : Context} {t : Table} {l : Ledger} (c : Command) : Passes v [] t l →
      Passes (c.run v) (c.ops v) t l
  | op {v : Context} {op : TableOp} {rest : List TableOp} {t : Table} {l : Ledger} :
      Passes v (op :: rest) t l → Passes v rest (op.run t) (l.after t op)

namespace Table

variable {t t' : Table} {kids : Nat → List Nat} {l : Ledger}

/-- The lists of a table are in order. -/
structure Lists (t : Table) (kids : Nat → List Nat) : Prop where
  once : t.free.Nodup
  idle : ∀ s ∈ t.free, (t.entries s).host = 0 ∧ ∀ p, s ∉ kids p
  spelled : ∀ p, 0 < p → p < t.count → Chain t.entries (t.entries p).firstChild (kids p)
  acyclic : ∀ p, (kids p).Nodup
  apart : ∀ p q, p ≠ q → ∀ s ∈ kids p, s ∉ kids q
  held : ∀ c, 0 < c → c < t.count → (t.entries c).host ≠ 0 → (t.entries c).parent ≠ 0 →
    c ∈ kids (t.entries c).parent

/-- What lives is left as it is, but that a pool's list may be another. -/
def Spares (t t' : Table) (parent : Nat) : Prop :=
  ∀ s, 0 < s → s < t.count → (t.entries s).host ≠ 0 → s < t'.count ∧
    (s ≠ parent → t'.entries s = t.entries s) ∧
    ∃ first, t'.entries s = { t.entries s with firstChild := first }

/-- A slot that nothing has: no object, no list and no list of its own. -/
def Unused (t : Table) (kids : Nat → List Nat) (s : Nat) : Prop :=
  (s < t.count → (t.entries s).host = 0) ∧ (∀ p, s ∉ kids p) ∧ kids s = []

/-- What lives and was allocated from a pool ends, and nothing else changes but the pool's list. -/
def EndsOf (t t' : Table) (l : Ledger) (pool : Nat) : Prop :=
  ∀ s, 0 < s → s < t.count → (t.entries s).host ≠ 0 →
    (l.pool s = l.serial pool → (t'.entries s).host = 0) ∧
    (l.pool s ≠ l.serial pool → (s ≠ pool → t'.entries s = t.entries s) ∧
      (s = pool → t'.entries s = { t.entries s with firstChild := 0 }))

theorem Sound.lists (sound : t.Sound kids) : t.Lists kids where
  once := sound.once
  idle := fun s free => ⟨(sound.idle s free).2.2.1, fun p member =>
    (sound.owned p s member).2.2.1 free⟩
  spelled := sound.chain
  acyclic := sound.acyclic
  apart := fun p q other s first second =>
    other ((sound.owned p s first).2.2.2.1.symm.trans (sound.owned q s second).2.2.2.1)
  held := sound.held

theorem Takes.unused_of {slot : Nat} (takes : Takes t t' slot) (sound : t.Sound kids) :
    t.Unused kids slot := by
  refine ⟨fun inside => ?_, takes.not_kid sound, takes.childless sound⟩
  rcases takes.unused with free | past
  · exact (sound.idle slot free).2.2.1
  · omega

/-- What `vkb_register` takes nothing has, and what lives it leaves. -/
theorem Sound.register_spares (sound : t.Sound kids) {kind : Kind} (host : UInt64) {parent : Nat}
    (issues : t.Issues kind parent) : t.Spares (t.register kind host parent).2 parent ∧
      ∀ id ∈ TableOp.given t (.register kind host parent), t.Unused kids (slotOf id) := by
  rw [TableOp.given]
  rcases register_cases ⟨kids, sound⟩ kind host parent with
    nothing | ⟨-, t', slot, gen, takes, same, -⟩
  · rw [nothing, if_pos rfl]
    exact ⟨fun s pos inside live => ⟨inside, fun _ => rfl, _, rfl⟩, List.forall_mem_nil _⟩
  · rw [same]
    constructor
    · intro s pos inside live
      have other := takes.ne_live sound inside live
      rw [place_count, place_entries (takes.parent_ne sound issues), if_neg other, takes.entries]
      refine ⟨Nat.lt_of_lt_of_le inside takes.more, fun apart => if_neg fun wrong => apart wrong.2,
        ?_⟩
      split <;> exact ⟨_, rfl⟩
    · intro id member
      split at member
      · cases member
      · rw [List.mem_singleton] at member
        rw [member, place_handle, slotOf_handleOf _ _ (Nat.lt_of_lt_of_le takes.inside.2 takes.few)]
        exact takes.unused_of sound

/-- Who lives was allocated from the pool that is in the slot of its parent now. -/
theorem Sound.pool_iff (sound : t.Sound kids) (tells : l.Tells t) {c pool : Nat} (pos : 0 < c)
    (inside : c < t.count) (live : (t.entries c).host ≠ 0) (low : 0 < pool)
    (high : pool < t.count) :
    l.pool c = l.serial pool ↔ (t.entries c).parent = pool := by
  rw [tells.pool c pos inside live]
  split
  · rename_i root
    have some_ := tells.numbered pool low high
    rw [root]
    omega
  · rename_i owned
    constructor
    · intro same
      have member := sound.held c pos inside live owned
      obtain ⟨low', high', -⟩ := sound.pools _ (List.ne_nil_of_mem member)
      exact tells.apart _ low' high' _ low high same
    · intro same
      rw [same]

/-- `vkb_forget_children` ends what was allocated from the pool. -/
theorem Sound.forgetChildren_ends (sound : t.Sound kids) (tells : l.Tells t) {pool : Nat}
    (pos : 0 < pool) (inside : pool < t.count) (live : (t.entries pool).host ≠ 0) :
    t.EndsOf (t.forgetChildren pool) l pool := by
  obtain ⟨-, released⟩ := sound.forgetChildren pos inside live
  intro s low high alive
  have member : s ∈ kids pool ↔ l.pool s = l.serial pool := by
    rw [sound.pool_iff tells low high alive pos inside]
    constructor
    · exact fun among => (sound.owned pool s among).2.2.2.1
    · rintro rfl
      exact sound.held s low high alive (Nat.ne_of_gt pos)
  constructor
  · exact fun mine => (released.ended s (member.mpr mine)).1
  · intro other
    have kept : s ∉ kids pool := fun among => other (member.mp among)
    constructor
    · exact released.kept s kept
    · rintro rfl
      exact released.pool kept

end Table

namespace Ledger

open Table

variable {l : Ledger} {t t' : Table} {kids : Nat → List Nat}

theorem Tells.new : Tells {} {} where
  past := fun _ => Nat.le_refl 0
  numbered := fun s pos inside => absurd pos (by
    have : s < 1 := inside
    omega)
  apart := fun s pos inside => absurd pos (by
    have : s < 1 := inside
    omega)
  pool := fun s pos inside => absurd pos (by
    have : s < 1 := inside
    omega)

section

variable (tells : l.Tells t)
include tells

/-- A ledger stays right when nothing is registered: what lives has lived. -/
theorem Tells.quiet (count : t'.count ≤ t.count)
    (old : ∀ c, 0 < c → c < t'.count → (t'.entries c).host ≠ 0 →
      (t.entries c).host ≠ 0 ∧ (t'.entries c).parent = (t.entries c).parent) : l.Tells t' where
  past := tells.past
  numbered := fun s pos inside => tells.numbered s pos (by omega)
  apart := fun s pos inside s' pos' inside' =>
    tells.apart s pos (by omega) s' pos' (by omega)
  pool := fun c pos inside live => by
    obtain ⟨lived, parent⟩ := old c pos inside live
    rw [parent]
    exact tells.pool c pos (by omega) lived

theorem Tells.quieter (quieter : Quieter t t') : l.Tells t' :=
  tells.quiet (Nat.le_of_eq quieter.count) fun c _ _ live => by
    have same := quieter.host live
    exact ⟨same ▸ live, (quieter.fields c).1⟩

theorem Tells.released {pool : Nat} {slots : List Nat} (released : Released t t' pool slots) :
    l.Tells t' :=
  tells.quiet (Nat.le_of_eq released.count) fun c _ _ live => by
    have kept : c ∉ slots := fun back => live (released.ended c back).1
    by_cases here : c = pool
    · subst here
      rw [released.pool kept] at live ⊢
      exact ⟨live, rfl⟩
    · rw [released.kept c kept here] at live ⊢
      exact ⟨live, rfl⟩

theorem Tells.place (sound : t.Sound kids) {slot parent : Nat} (takes : Takes t t' slot)
    {kind : Kind} (issues : t.Issues kind parent) (host : UInt64) (gen : UInt8) :
    (l.add slot parent).Tells (t'.place slot gen kind host parent).2 := by
  have apart := takes.parent_ne sound issues
  have new : (l.add slot parent).serial slot = l.made + 1 := Function.update_self ..
  have old : ∀ s ≠ slot, (l.add slot parent).serial s = l.serial s := fun s other =>
    Function.update_of_ne other ..
  refine ⟨fun s => ?_, fun s pos inside => ?_, fun s pos inside s' pos' inside' same => ?_,
    fun c pos inside live => ?_⟩
  · by_cases here : s = slot
    · rw [here, new]
      exact Nat.le_refl _
    · rw [old s here]
      exact Nat.le_succ_of_le (tells.past s)
  · rw [place_count] at inside
    by_cases here : s = slot
    · rw [here, new]
      exact Nat.succ_pos _
    · rw [old s here]
      exact tells.numbered s pos (takes.others s inside here)
  · rw [place_count] at inside inside'
    have before := tells.past s
    have before' := tells.past s'
    by_cases here : s = slot
    · by_cases here' : s' = slot
      · rw [here, here']
      · rw [here, new, old s' here'] at same
        omega
    · by_cases here' : s' = slot
      · rw [here', new, old s here] at same
        omega
      · rw [old s here, old s' here'] at same
        exact tells.apart s pos (takes.others s inside here) s' pos'
          (takes.others s' inside' here') same
  · rw [place_count] at inside
    rw [place_entries apart, takes.entries] at live ⊢
    by_cases here : c = slot
    · subst here
      rw [if_pos rfl]
      show (l.add c parent).pool c = if parent = 0 then 0 else _
      rw [old parent apart]
      exact Function.update_self ..
    · rw [if_neg here] at live ⊢
      have lived : (t.entries c).host ≠ 0 := by
        split at live <;> exact live
      have parent_ : Entry.parent (if parent ≠ 0 ∧ c = parent then
          { t.entries c with firstChild := slot } else t.entries c) = (t.entries c).parent := by
        split <;> rfl
      have within := takes.others c inside here
      have kept : (l.add slot parent).pool c = l.pool c := Function.update_of_ne here ..
      rw [parent_, kept, tells.pool c pos within lived]
      split
      · rfl
      · rename_i owned
        -- the slot that is taken is no pool with something on its list
        have member := sound.held c pos within lived owned
        refine (old _ fun wrong => ?_).symm
        rw [wrong, takes.childless sound] at member
        cases member

theorem Tells.register (sound : t.Sound kids) {kind : Kind} (host : UInt64) {parent : Nat}
    (issues : t.Issues kind parent) :
    (l.after t (.register kind host parent)).Tells (t.register kind host parent).2 := by
  rw [after, TableOp.given]
  rcases register_cases ⟨kids, sound⟩ kind host parent with
    nothing | ⟨-, t', slot, gen, takes, same, -⟩
  · rw [nothing, if_pos rfl]
    exact tells
  · have slotIs := slotOf_handleOf t'.ordinal gen (Nat.lt_of_lt_of_le takes.inside.2 takes.few)
    have some_ : handleOf t'.ordinal gen slot ≠ 0 := fun zero => by
      rw [zero] at slotIs
      exact Nat.ne_of_gt takes.inside.1 slotIs.symm
    rw [same, place_handle, if_neg some_, List.foldl_cons, List.foldl_nil, slotIs]
    exact tells.place sound takes issues host gen

end

/-- What every operation keeps of a ledger. -/
theorem Tells.op (tells : l.Tells t) (sound : t.Sound kids) (op : TableOp) (issued : op.Issued t) :
    (l.after t op).Tells (op.run t) := by
  cases op with
  | register kind host parent => exact tells.register sound host issued
  | intern kind host =>
    have made : (l.after t (.register kind host 0)).Tells (t.register kind host 0).2 :=
      tells.register sound host (.inl rfl)
    simp only [after, TableOp.given, TableOp.run, Table.intern] at made ⊢
    cases t.internSlot kind host with
    | some i => exact tells
    | none => exact made
  | forget id kind =>
    show l.Tells (t.forget id kind)
    rcases forget_cases sound id kind with
      ⟨-, same⟩ | ⟨e, -, ⟨quieter, -⟩ | ⟨-, -, -, released⟩⟩
    · rw [same]
      exact tells
    · exact tells.quieter quieter
    · exact tells.released released
  | forgetChildren pool =>
    obtain ⟨pos, inside, live⟩ := issued
    exact tells.released (sound.forgetChildren pos inside live).2
  | destroyObjects => exact tells.quieter (quieter_destroyFrom _ t)
  | forgetDeviceEntries => exact tells.quieter (quieter_forgetDeviceEntries t)
  | destroyContext =>
    refine tells.quiet sound.some_ fun c pos inside _ => absurd inside ?_
    show ¬ c < 1
    omega
  | nextOrdinal => exact tells.quiet (Nat.le_refl _) fun c _ _ live => ⟨live, rfl⟩

end Ledger

/-! ## Runs -/

namespace Passes

variable {v : Context} {rest : List TableOp} {t : Table} {l : Ledger}

/-- What a command has still to do ends in the table of its context. -/
theorem ends (passes : Passes v rest t l) : rest.foldl TableOp.run t = v.table := by
  induction passes with
  | new => rfl
  | command c _ ih =>
    rw [List.foldl_nil] at ih
    rw [Command.run_table, ih]
  | op _ ih => exact ih

/-- The invariant of a run: the table is sound, the ledger right, and what comes may be made. -/
theorem sound (passes : Passes v rest t l) : (∃ kids, t.Sound kids) ∧ l.Tells t ∧
    Along (fun t op => op.Issued t) t rest := by
  induction passes with
  | new => exact ⟨⟨_, .new⟩, .new, trivial⟩
  | @command v t l c passes ih =>
    obtain ⟨⟨kids, sound⟩, tells, -⟩ := ih
    have same : t = v.table := passes.ends
    subst same
    exact ⟨⟨kids, sound⟩, tells, c.issued sound⟩
  | @op v op rest t l _ ih =>
    obtain ⟨⟨kids, sound⟩, tells, issued, later⟩ := ih
    exact ⟨op.sound sound issued, tells.op sound op issued, later⟩

/-- In every table on the way the lists are in order.  What is registered next takes a slot that
nothing has and overwrites nothing that lives, and a pool that forgets its children ends the
live objects that were allocated from it and nothing else. -/
theorem in_order (passes : Passes v rest t l) : ∃ kids, t.Lists kids ∧
    ∀ op later, rest = op :: later →
      (∀ kind host parent, op = .register kind host parent →
        t.Spares (op.run t) parent ∧ ∀ id ∈ op.given t, t.Unused kids (slotOf id)) ∧
      (∀ kind host, op = .intern kind host →
        t.Spares (op.run t) 0 ∧ ∀ id ∈ op.given t, t.Unused kids (slotOf id)) ∧
      (∀ pool, op = .forgetChildren pool → t.EndsOf (op.run t) l pool) := by
  obtain ⟨⟨kids, sound⟩, tells, issued⟩ := passes.sound
  refine ⟨kids, sound.lists, ?_⟩
  rintro op later rfl
  refine ⟨?_, ?_, ?_⟩
  · rintro kind host parent rfl
    exact sound.register_spares host issued.1
  · rintro kind host rfl
    have root : t.Issues kind 0 := .inl rfl
    obtain ⟨spares, unused⟩ := sound.register_spares host root
    simp only [TableOp.run, TableOp.given, Table.intern] at spares unused ⊢
    cases t.internSlot kind host with
    | some i =>
      exact ⟨fun s pos inside live => ⟨inside, fun _ => rfl, _, rfl⟩, List.forall_mem_nil _⟩
    | none => exact ⟨spares, unused⟩
  · rintro pool rfl
    obtain ⟨pos, inside, live⟩ := issued.1
    exact sound.forgetChildren_ends tells pos inside live

/-- A descriptor pool with two sets that is reset, the first of what a device makes. -/
theorem in_order_reset : ∃ v t l, Passes v [.forgetChildren 4] t l ∧
    t.EndsOf (t.forgetChildren 4) l 4 ∧
    (t.entries 5).host ≠ 0 ∧ l.pool 5 = l.serial 4 ∧
    (t.entries 3).host ≠ 0 ∧ l.pool 3 ≠ l.serial 4 := by
  have run := (new.command (.createInstance 1 1)).op
  have run := (run.command (.enumeratePhysicalDevices (handleOf 1 0 1))).op
  have run := (run.command (.createDevice (handleOf 1 0 2) 1)).op
  have run := (run.command (.create .descriptorPool deviceId [] true [1])).op
  have run := (run.command (.allocate .descriptor deviceId (handleOf 1 0 4) [] true [1, 2])).op.op
  have run := run.command (.resetDescriptorPool deviceId (handleOf 1 0 4))
  obtain ⟨kids, -, next⟩ := in_order run
  exact ⟨_, _, _, run, (next _ _ rfl).2.2 4 rfl, by decide, by decide, by decide, by decide⟩

end Passes

end MiniBox.Vulkan
