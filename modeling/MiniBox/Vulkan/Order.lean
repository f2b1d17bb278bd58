import MiniBox.Vulkan.Handles
import Mathlib.Data.List.Sort

/-!
# The order in which objects are destroyed

`destroy_objects` goes through the slots from the highest down.  A log keeps the objects of
the device that no pool owns as commands make and destroy them, the newest first.  The walk
meets the objects in the order of the log as long as each was given a slot above those of the
objects that stood when it was made.
-/

namespace MiniBox.Vulkan

/-- An object of the device that no pool owns. -/
structure Object where
  /-- where it is in the table -/
  slot : Nat
  /-- what it is -/
  kind : Kind
  /-- the driver's handle -/
  host : UInt64
  deriving DecidableEq, Repr

/-- What the driver is told to destroy. -/
def Object.told (o : Object) : Kind × UInt64 := (o.kind, o.host)

namespace Table

variable (t : Table)

/-- The slot `vkb_register` takes, if it takes one. -/
def nextSlot : Option Nat :=
  match t.free with
  | slot :: _ => some slot
  | [] => if slotMask.toNat < t.count then none else some t.count

/-- The object in slot `i`, as `destroy_objects` finds it: what a pool owns goes with the pool. -/
def held (i : Nat) : Option Object :=
  let e := t.entries i
  if e.host = 0 ∨ e.parent ≠ 0 ∨ ¬ e.kind.ofDevice then none else some ⟨i, e.kind, e.host⟩

/-- The table holds an object. -/
structure Holds (o : Object) : Prop where
  pos : 0 < o.slot
  inside : o.slot < t.count
  here : t.held o.slot = some o

/-- The objects in the slots from `i` down. -/
def heldTo : Nat → List Object
  | 0 => []
  | i + 1 => (t.held (i + 1)).toList ++ heldTo i

end Table

namespace TableOp

/-- The object `vkb_register` makes. -/
def registers (t : Table) (kind : Kind) (host : UInt64) (parent : Nat) : List Object :=
  if host ≠ 0 ∧ parent = 0 ∧ kind.ofDevice then t.nextSlot.toList.map (⟨·, kind, host⟩) else []

def makes (t : Table) : TableOp → List Object
  | .register kind host parent => registers t kind host parent
  | .intern kind host =>
    if (t.internSlot kind host).isSome then [] else registers t kind host 0
  | _ => []

/-- Whether an object outlives an operation. -/
def keeps (t : Table) (o : Object) : TableOp → Bool
  | .forget id kind => !((t.entry id kind).isSome && o.slot == slotOf id)
  | .destroyObjects | .forgetDeviceEntries | .destroyContext => false
  | _ => true

/-- The log after an operation. -/
def logged (t : Table) (log : List Object) (op : TableOp) : List Object :=
  op.makes t ++ log.filter (op.keeps t)

/-- What is made is given a slot above those of the objects that stand. -/
def Ascends (t : Table) (op : TableOp) : Prop :=
  ∀ o ∈ op.makes t, ∀ old, t.Holds old → old.slot < o.slot

end TableOp

/-- The log after a list of operations. -/
def Table.loggedBy : Table → List Object → List TableOp → List Object
  | _, log, [] => log
  | t, log, op :: ops => (op.run t).loggedBy (op.logged t log) ops

/-- A process from its start, with the log of its objects. -/
inductive ObjectRun (allowed : Table → TableOp → Prop) : Context → List Object → Prop where
  | new : ObjectRun allowed {} []
  | command {v : Context} {log : List Object} (c : Command) : ObjectRun allowed v log →
      Along allowed v.table (c.ops v) →
      ObjectRun allowed (c.run v) (v.table.loggedBy log (c.ops v))

/-- The log lists what the table holds, from the highest slot down. -/
structure Table.Logs (t : Table) (log : List Object) : Prop where
  falls : log.Pairwise fun new old => old.slot < new.slot
  mem : ∀ o, o ∈ log ↔ t.Holds o

section Walk

variable {t t' : Table} {kids : Nat → List Nat} {log : List Object}

open Table

/-! ## The walk -/

variable {i parent : Nat} {o : Object} {host : UInt64} {kind : Kind}

namespace Table

theorem held_congr (host : (t'.entries i).host = (t.entries i).host)
    (kind : (t'.entries i).kind = (t.entries i).kind)
    (parent : (t'.entries i).parent = (t.entries i).parent) : t'.held i = t.held i := by
  rw [held, held, host, kind, parent]

theorem held_slot (here : t.held i = some o) : o.slot = i := by
  rw [held] at here
  split at here
  · cases here
  · cases here
    rfl

theorem held_dead (dead : (t.entries i).host = 0) : t.held i = none :=
  if_pos (.inl dead)

theorem heldTo_congr : ∀ {n : Nat}, (∀ i ≤ n, t'.held i = t.held i) →
    t'.heldTo n = t.heldTo n
  | 0, _ => rfl
  | n + 1, same => by
    rw [heldTo, heldTo, same _ (Nat.le_refl _),
      heldTo_congr fun i less => same i (Nat.le_succ_of_le less)]

theorem destroyFrom_told : ∀ (n : Nat) (t : Table),
    (destroyFrom n t).1 = (t.heldTo n).map Object.told
  | 0, _ => rfl
  | n + 1, t => by
    rw [destroyFrom, heldTo, held]
    dsimp only
    split
    · exact destroyFrom_told n t
    · rw [destroyFrom_told n]
      refine congrArg (_ :: List.map _ ·) (heldTo_congr fun i less => ?_)
      have other : i ≠ n + 1 := by omega
      exact held_congr (by simp [other]) (by simp [other]) (by simp [other])

theorem mem_heldTo : ∀ {n : Nat}, n < t.count →
    (o ∈ t.heldTo n ↔ o.slot ≤ n ∧ t.Holds o)
  | 0, _ => by
    have zero : o.slot ≤ 0 → ¬ t.Holds o := fun zero holds => absurd holds.pos (by omega)
    exact ⟨fun none_ => (nomatch none_), fun ⟨less, holds⟩ => absurd holds (zero less)⟩
  | n + 1, inside => by
    rw [heldTo, List.mem_append, mem_heldTo (Nat.lt_of_succ_lt inside), Option.mem_toList]
    constructor
    · rintro (here | ⟨less, holds⟩)
      · have slot := held_slot here
        exact ⟨by omega, by omega, by omega, by rw [slot]; exact here⟩
      · exact ⟨by omega, holds⟩
    · rintro ⟨less, holds⟩
      by_cases here : o.slot = n + 1
      · exact .inl (here ▸ holds.here)
      · exact .inr ⟨by omega, holds⟩

theorem heldTo_falls : ∀ {n : Nat}, n < t.count →
    (t.heldTo n).Pairwise fun new old => old.slot < new.slot
  | 0, _ => .nil
  | n + 1, inside => by
    have below := Nat.lt_of_succ_lt inside
    rw [heldTo]
    cases here : t.held (n + 1) with
    | none => exact heldTo_falls below
    | some o =>
      refine .cons (fun old member => ?_) (heldTo_falls below)
      rw [held_slot here]
      exact Nat.lt_succ_of_le ((mem_heldTo below).mp member).1

/-- The walk tells the driver of the objects in the order of the log. -/
theorem Logs.destroyed (logs : t.Logs log) (some_ : 0 < t.count) :
    t.destroyObjects.1 = log.map Object.told := by
  have last : t.count - 1 < t.count := by omega
  have : Std.Irrefl fun new old : Object => old.slot < new.slot := ⟨fun o => Nat.lt_irrefl o.slot⟩
  have : Std.Antisymm fun new old : Object => old.slot < new.slot :=
    ⟨fun new old less more => absurd less (Nat.lt_asymm more)⟩
  have same : log = t.heldTo (t.count - 1) := by
    refine logs.falls.eq_of_mem_iff (heldTo_falls last) fun o => ?_
    rw [logs.mem, mem_heldTo last]
    exact ⟨fun holds => ⟨Nat.le_pred_of_lt holds.inside, holds⟩, And.right⟩
  rw [destroyObjects, destroyFrom_told, same]

/-! ## What an operation leaves -/

theorem holds_congr (count : o.slot < t'.count ↔ o.slot < t.count)
    (held : t'.held o.slot = t.held o.slot) : t'.Holds o ↔ t.Holds o :=
  ⟨fun ⟨pos, inside, here⟩ => ⟨pos, count.mp inside, held ▸ here⟩,
    fun ⟨pos, inside, here⟩ => ⟨pos, count.mpr inside, held.trans here⟩⟩

theorem not_holds (dead : (t.entries o.slot).host = 0) : ¬ t.Holds o := by
  intro holds
  have here := holds.here
  rw [held_dead dead] at here
  cases here

/-- What `vkb_register` does with the slot it takes. -/
theorem register_next (sound : t.Sound kids) {slot : Nat} (next : t.nextSlot = some slot)
    (kind : Kind) (live : host ≠ 0) (parent : Nat) :
    0 < slot ∧ (slot < t.count → (t.entries slot).host = 0) ∧ ∃ (u : Table) (gen : UInt8),
      t.register kind host parent = u.place slot gen kind host parent ∧
        u.entries = t.entries ∧ ∀ i, i < u.count ↔ i < t.count ∨ i = slot := by
  rw [nextSlot] at next
  split at next
  · rename_i slot' free spare
    cases next
    obtain ⟨pos, inside, dead, -⟩ := sound.idle slot (by rw [spare]; exact List.mem_cons_self)
    refine ⟨pos, fun _ => dead, { t with free }, (t.entries slot).gen, ?_, rfl, fun i => ?_⟩
    · rw [register, if_neg live, spare]
    · exact ⟨.inl, fun less => less.elim id fun here => here ▸ inside⟩
  · rename_i spare
    split at next
    · cases next
    · rename_i room
      cases next
      refine ⟨sound.some_, fun less => absurd less (Nat.lt_irrefl _),
        { t with count := t.count + 1 }, 0, ?_, rfl, fun i => Nat.lt_succ_iff_lt_or_eq⟩
      rw [register, if_neg live, spare]
      exact if_neg room

theorem register_full (full : t.nextSlot = none) : (t.register kind host parent).2 = t := by
  rw [nextSlot] at full
  rw [register]
  split at full
  · cases full
  · rename_i spare
    split at full
    · rename_i room
      rw [spare]
      simp only [if_pos room, ite_self]
    · cases full

theorem register_holds (sound : t.Sound kids) (issues : t.Issues kind parent) (o : Object) :
    (t.register kind host parent).2.Holds o ↔
      o ∈ TableOp.registers t kind host parent ∨ t.Holds o := by
  by_cases live : host = 0
  · rw [TableOp.registers, if_neg (fun both => both.1 live), register, if_pos live]
    simp
  cases next : t.nextSlot with
  | none =>
    rw [TableOp.registers, next, register_full next]
    simp
  | some slot =>
    obtain ⟨pos, idle, u, gen, same, entries, count⟩ := register_next sound next kind live parent
    have apart : parent ≠ slot := by
      rcases issues with root | ⟨-, -, inside, alive, -⟩
      · omega
      · exact fun here => alive (here ▸ idle (here ▸ inside))
    rw [same]
    have placed := u.place_entries apart gen kind host o.slot
    have inside : o.slot < (u.place slot gen kind host parent).2.count ↔
        o.slot < t.count ∨ o.slot = slot := by
      rw [place_count]
      exact count o.slot
    by_cases here : o.slot = slot
    · -- the slot that is taken holds what is made, and held nothing
      have before : ¬ t.Holds o := fun holds =>
        not_holds (here ▸ idle (here ▸ holds.inside)) holds
      rw [if_pos here] at placed
      have held : (u.place slot gen kind host parent).2.held o.slot =
          if host = 0 ∨ parent ≠ 0 ∨ ¬ kind.ofDevice then none else some ⟨slot, kind, host⟩ := by
        rw [held, placed, here]
      have made : (u.place slot gen kind host parent).2.Holds o ↔
          (u.place slot gen kind host parent).2.held o.slot = some o :=
        ⟨Holds.here, fun is => ⟨by omega, inside.mpr (.inr here), is⟩⟩
      rw [made, held, TableOp.registers, next]
      by_cases own : parent = 0 ∧ kind.ofDevice = true
      · rw [if_neg (by simp [live, own]), if_pos ⟨live, own⟩]
        simp [before, eq_comm]
      · rw [if_pos (by grind), if_neg (fun all => own all.2)]
        simp [before]
    · -- the others are as they were, a pool's list apart
      have other : ¬ o ∈ TableOp.registers t kind host parent := by
        rw [TableOp.registers, next]
        split
        · rintro member
          rw [List.mem_singleton.mp member] at here
          exact here rfl
        · exact List.not_mem_nil
      rw [or_iff_right other]
      rw [if_neg here, entries] at placed
      refine holds_congr (inside.trans (or_iff_left here)) (held_congr ?_ ?_ ?_) <;>
        rw [placed] <;> split <;> rfl

theorem forget_holds (t : Table) (id : UInt64) (kind : Kind) (o : Object) :
    (t.forget id kind).Holds o ↔ t.Holds o ∧ ¬ ((t.entry id kind).isSome ∧ o.slot = slotOf id) := by
  rw [forget]
  cases found : t.entry id kind with
  | none => simp
  | some e =>
    by_cases here : o.slot = slotOf id
    · have ended : ∀ {u : Table}, (u.entries (slotOf id)).host = 0 → ¬ u.Holds o := fun dead =>
        not_holds (here ▸ dead)
      dsimp only
      split <;> simp [here, ended]
    · dsimp only
      rw [and_iff_left (fun both => here both.2)]
      split <;> exact holds_congr Iff.rfl
        (held_congr (by simp [here]) (by simp [here]) (by simp [here]))

/-- What a pool's list has is the pool's, so that no object goes with it. -/
theorem forgetChildren_holds (sound : t.Sound kids) {pool : Nat} (pos : 0 < pool)
    (inside : pool < t.count) (live : (t.entries pool).host ≠ 0) (o : Object) :
    (t.forgetChildren pool).Holds o ↔ t.Holds o := by
  obtain ⟨-, released⟩ := sound.forgetChildren pos inside live
  have count : o.slot < (t.forgetChildren pool).count ↔ o.slot < t.count := by rw [released.count]
  by_cases child : o.slot ∈ kids pool
  · obtain ⟨-, -, -, parent, -⟩ := sound.owned pool _ child
    refine ⟨fun holds => absurd holds (not_holds (released.ended _ child).1), fun holds => ?_⟩
    have here := holds.here
    rw [held, if_pos (.inr (.inl (by omega)))] at here
    cases here
  · by_cases itself : o.slot = pool
    · have entry := released.pool (itself ▸ child)
      rw [← itself] at entry count ⊢
      exact holds_congr count (held_congr (by rw [entry]) (by rw [entry]) (by rw [entry]))
    · have entry := released.kept _ child itself
      exact holds_congr count (held_congr (by rw [entry]) (by rw [entry]) (by rw [entry]))

/-- What `destroy_objects` and `forget_device_entries` leave is no object. -/
theorem Quieter.not_holds (quieter : Quieter t t')
    (ends : 0 < o.slot → o.slot < t.count → (t.entries o.slot).parent = 0 →
      (t.entries o.slot).kind.ofDevice = true → (t'.entries o.slot).host = 0) : ¬ t'.Holds o := by
  rintro ⟨pos, inside, here⟩
  obtain ⟨parent, -, -, kind, -⟩ := quieter.fields o.slot
  rw [held] at here
  split at here
  · cases here
  · rename_i found
    simp only [not_or, not_not] at found
    obtain ⟨live, root, ofDevice⟩ := found
    exact live (ends pos (quieter.count ▸ inside) (parent ▸ root) (kind ▸ ofDevice))

end Table

/-- What the table holds after an operation: what it made, and what it kept. -/
theorem TableOp.holds_run (sound : t.Sound kids) (op : TableOp) (issued : op.Issued t)
    (o : Object) : (op.run t).Holds o ↔ o ∈ op.makes t ∨ t.Holds o ∧ op.keeps t o = true := by
  cases op with
  | register kind host parent =>
    simp only [run, makes, keeps, and_true]
    exact register_holds sound issued o
  | intern kind host =>
    simp only [run, makes, keeps, and_true, Table.intern]
    cases t.internSlot kind host with
    | some i => simp
    | none => exact register_holds sound (.inl rfl) o
  | forget id kind =>
    simp only [run, makes, keeps, forget_holds, List.not_mem_nil, false_or]
    cases t.entry id kind <;> simp
  | forgetChildren pool =>
    obtain ⟨pos, inside, live⟩ := issued
    simp [run, makes, keeps, forgetChildren_holds sound pos inside live]
  | destroyObjects =>
    have ended : ¬ t.destroyObjects.2.Holds o :=
      (quieter_destroyFrom _ t).not_holds fun pos inside root kind =>
        destroyFrom_host _ t pos (Nat.le_pred_of_lt inside) root kind
    simp [run, makes, keeps, ended]
  | forgetDeviceEntries =>
    have ended : ¬ t.forgetDeviceEntries.Holds o :=
      (quieter_forgetDeviceEntries t).not_holds fun pos inside root kind => by
        have dies : t.dies o.slot = true := by
          unfold dies
          cases is : (t.entries o.slot).kind <;> simp_all [Kind.ofDevice] <;> omega
        simp [Table.forgetDeviceEntries, dies]
    simp [run, makes, keeps, ended]
  | destroyContext =>
    have ended : ¬ (destroyContext.run t).Holds o := by
      rintro ⟨pos, inside, -⟩
      have inside : o.slot < 1 := inside
      omega
    simp [makes, keeps, ended]
  | nextOrdinal =>
    simp only [makes, keeps, and_true, List.not_mem_nil, false_or]
    exact holds_congr Iff.rfl rfl

/-- An operation makes one object at most. -/
theorem TableOp.makes_pairwise (t : Table) (op : TableOp) :
    (op.makes t).Pairwise fun new old => old.slot < new.slot := by
  have one : ∀ kind host parent,
      (registers t kind host parent).Pairwise fun new old => old.slot < new.slot := by
    intro kind host parent
    unfold registers
    cases t.nextSlot <;> split <;> simp
  cases op with
  | register kind host parent => exact one kind host parent
  | intern kind host =>
    simp only [makes]
    split
    · exact .nil
    · exact one kind host 0
  | _ => exact .nil

/-- One operation that keeps the slots of the objects rising keeps the log. -/
theorem Table.Logs.op (logs : t.Logs log) (sound : t.Sound kids) (op : TableOp)
    (issued : op.Issued t) (ascends : op.Ascends t) : (op.run t).Logs (op.logged t log) where
  falls := by
    refine List.pairwise_append.mpr ⟨op.makes_pairwise t, logs.falls.filter _, ?_⟩
    intro o made old kept
    exact ascends o made old ((logs.mem old).mp (List.mem_filter.mp kept).1)
  mem o := by
    rw [TableOp.logged, List.mem_append, List.mem_filter, logs.mem, op.holds_run sound issued]

theorem Table.Logs.ops : ∀ (ops : List TableOp) {t : Table} {kids : Nat → List Nat}
    {log : List Object}, t.Sound kids → t.Logs log → Along (fun t op => op.Issued t) t ops →
    Along (fun t op => op.Ascends t) t ops →
    (∃ kids', (ops.foldl TableOp.run t).Sound kids') ∧
      (ops.foldl TableOp.run t).Logs (t.loggedBy log ops)
  | [], _, kids, _, sound, logs, _, _ => ⟨⟨kids, sound⟩, logs⟩
  | op :: ops, _, _, _, sound, logs, ⟨issued, more⟩, ⟨ascends, rest⟩ => by
    obtain ⟨kids', sound'⟩ := op.sound sound issued
    exact Logs.ops ops sound' (logs.op sound op issued ascends) more rest

theorem ObjectRun.logs {v : Context} (run : ObjectRun (fun t op => op.Ascends t) v log) :
    (∃ kids, v.table.Sound kids) ∧ v.table.Logs log := by
  induction run with
  | new =>
    refine ⟨⟨_, .new⟩, .nil, fun o => ⟨fun none_ => (nomatch none_), fun ⟨pos, inside, _⟩ => ?_⟩⟩
    have inside : o.slot < 1 := inside
    omega
  | command c _ ascends ih =>
    obtain ⟨⟨kids, sound⟩, logs⟩ := ih
    rw [Command.run_table]
    exact Logs.ops (c.ops _) sound logs (c.issued sound) ascends

end Walk

/-- In every run in which each object is given a slot above those of the objects that stand,
`destroy_objects` has the driver destroy the objects that remain, the newest first, but for those
whose function the driver does not have. -/
theorem ObjectRun.newest_first {v : Context} {log : List Object}
    (run : ObjectRun (fun t op => op.Ascends t) v log) (fn : Kind → Bool) :
    v.table.destroyed fn = (log.filter fun o => fn o.kind).map Object.told := by
  obtain ⟨⟨kids, sound⟩, logs⟩ := run.logs
  rw [Table.destroyed, logs.destroyed sound.some_, List.filter_map]
  rfl

/-- A command of one operation, whose object is given a slot above those in the log. -/
theorem ObjectRun.rises {v : Context} {log : List Object}
    (run : ObjectRun (fun t op => op.Ascends t) v log) (c : Command) {op : TableOp}
    (one : c.ops v = [op]) (above : ∀ o ∈ op.makes v.table, ∀ old ∈ log, old.slot < o.slot) :
    ObjectRun (fun t op => op.Ascends t) (c.run v) (op.logged v.table log) := by
  have next := run.command c (by
    rw [one]
    exact ⟨fun o made old holds => above o made old ((run.logs.2.mem old).mpr holds), trivial⟩)
  rwa [one] at next

/-- An event is made and a fence after it. -/
theorem ObjectRun.newest_first_fence : ∃ v log, ObjectRun (fun t op => op.Ascends t) v log ∧
    log = [⟨5, .fence, 6⟩, ⟨4, .event, 5⟩] ∧
    v.table.destroyed (fun _ => true) = [(.fence, 6), (.event, 5)] := by
  have run := new.rises (.createInstance 1 1) rfl (by decide)
  have run := run.rises (.enumeratePhysicalDevices (handleOf 1 0 1)) rfl (by decide)
  have run := run.rises (.createDevice (handleOf 1 0 2) 1) rfl (by decide)
  have run := run.rises (.create .event deviceId [] true [5]) rfl (by decide)
  have run := run.rises (.create .fence deviceId [] true [6]) rfl (by decide)
  exact ⟨_, _, run, by decide, (newest_first run fun _ => true).trans (by decide)⟩

theorem along_any : ∀ (ops : List TableOp) (t : Table), Along (fun _ _ => True) t ops
  | [], _ => trivial
  | op :: ops, t => ⟨trivial, along_any ops (op.run t)⟩

/-- An event and a fence are made, the event is destroyed, and a semaphore is given its slot: the
fence is destroyed before the semaphore, which is the newer. -/
theorem ObjectRun.older_first : ∃ v log, ObjectRun (fun _ _ => True) v log ∧
    log = [⟨4, .semaphore, 7⟩, ⟨5, .fence, 6⟩] ∧
    v.table.destroyed (fun _ => true) = [(.fence, 6), (.semaphore, 7)] := by
  have run := new.command (.createInstance 1 1) (along_any _ _)
  have run := run.command (.enumeratePhysicalDevices (handleOf 1 0 1)) (along_any _ _)
  have run := run.command (.createDevice (handleOf 1 0 2) 1) (along_any _ _)
  have run := run.command (.create .event deviceId [] true [5]) (along_any _ _)
  have run := run.command (.create .fence deviceId [] true [6]) (along_any _ _)
  have run := run.command (.destroy .event deviceId (handleOf 1 0 4)) (along_any _ _)
  have run := run.command (.create .semaphore deviceId [] true [7]) (along_any _ _)
  exact ⟨_, _, run, by decide, by decide⟩

end MiniBox.Vulkan
