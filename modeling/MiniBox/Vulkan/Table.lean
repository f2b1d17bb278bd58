import Mathlib.Algebra.Ring.Nat
import Mathlib.Logic.Function.Basic

/-!
# The Vulkan bridge's handles

What a guest holds in a variable of a handle's type is a number: the context's ordinal, the
generation of a slot and the slot.  The host keeps the driver's handle in the slot.  `Table`
is the host's table, an operation of it is a `TableOp`, and a `Command` of the guest or of
the frontend is the list of operations that the host's code makes for it.

A slot is a natural number here; the table has at most `2 ^ 24` of them.  What the entries
of device memory and of update templates point at is not in the model, and neither are
allocations of the host that fail.
-/

namespace MiniBox.Vulkan

/-- `enum vkb_kind`, for the handles that some command of the bridge makes. -/
inductive Kind where
  | none_ | instance_ | physicalDevice | device | queue
  | commandBuffer | descriptorSet
  | buffer | bufferView | image | imageView | shaderModule | pipeline | pipelineCache
  | pipelineLayout | renderPass | framebuffer | descriptorSetLayout | descriptorPool | sampler
  | commandPool | fence | semaphore | event | queryPool | deviceMemory | samplerYcbcrConversion
  | descriptorUpdateTemplate
  deriving DecidableEq, Repr

namespace Kind

/-- The kinds `destroy_objects` destroys, which are those a device makes one by one. -/
def ofDevice : Kind → Bool
  | none_ | instance_ | physicalDevice | device | queue | commandBuffer | descriptorSet => false
  | _ => true

/-- What dies with a pool. -/
def ofPool : Kind → Bool
  | commandBuffer | descriptorSet => true
  | _ => false

end Kind

/-- `struct entry`. -/
structure Entry where
  /-- 0 once destroyed -/
  host : UInt64 := 0
  /-- the pool a set or a command buffer dies with -/
  parent : Nat := 0
  /-- a pool's: the newest of what dies with it, 0 none -/
  firstChild : Nat := 0
  /-- a child's: the one made before it in the same pool -/
  nextSibling : Nat := 0
  /-- what it is -/
  kind : Kind := .none_
  /-- how many times this slot was given out again -/
  gen : UInt8 := 0
  deriving DecidableEq, Repr

/-- The table: `s_entries`, `s_entry_count`, `s_free` with its newest slot first, `s_ordinal`. -/
structure Table where
  /-- the slots -/
  entries : Nat → Entry := fun _ => {}
  /-- how many slots there are, slot 0 among them -/
  count : Nat := 1
  /-- the slots that were given back -/
  free : List Nat := []
  /-- which context this is -/
  ordinal : UInt32 := 1

/-- `VKB_SLOT_MASK`. -/
def slotMask : UInt32 := 0xffffff

/-- `vkb_slot`. -/
def slotOf (id : UInt64) : Nat := (id.toUInt32 &&& slotMask).toNat

def genOf (id : UInt64) : UInt8 := (id.toUInt32 >>> 24).toUInt8

def handleOf (ordinal : UInt32) (gen : UInt8) (slot : Nat) : UInt64 :=
  ordinal.toUInt64 <<< 32 ||| gen.toUInt64 <<< 24 ||| UInt64.ofNat slot

namespace Table

variable (t : Table)

def put (slot : Nat) (e : Entry) : Table := { t with entries := Function.update t.entries slot e }

/-- The handle that names a slot now. -/
def handle (slot : Nat) : UInt64 := handleOf t.ordinal (t.entries slot).gen slot

/-! ## Operations -/

/-- The end of `vkb_register`, when it has a slot. -/
def place (slot : Nat) (gen : UInt8) (kind : Kind) (host : UInt64) (parent : Nat) :
    UInt64 × Table :=
  let t := t.put slot { host, kind, parent, gen }
  let t :=
    if parent ≠ 0 then
      let t := t.put slot { t.entries slot with nextSibling := (t.entries parent).firstChild }
      t.put parent { t.entries parent with firstChild := slot }
    else t
  (handleOf t.ordinal gen slot, t)

/-- `vkb_register`: a slot that was given back, or the next one. -/
def register (kind : Kind) (host : UInt64) (parent : Nat) : UInt64 × Table :=
  if host = 0 then (0, t)
  else
    match t.free with
    | slot :: free => { t with free }.place slot (t.entries slot).gen kind host parent
    | [] =>
      if slotMask.toNat < t.count then (0, t)
      else { t with count := t.count + 1 }.place t.count 0 kind host parent

/-- `vkb_entry`. -/
def entry (id : UInt64) (kind : Kind) : Option Entry :=
  let index := slotOf id
  if id >>> 32 ≠ t.ordinal.toUInt64 ∨ index = 0 ∨ t.count ≤ index then none
  else
    let e := t.entries index
    -- the slot has been given out since
    if e.gen ≠ genOf id then none
    else if e.host ≠ 0 ∧ e.kind = kind then some e
    else none

/-- The slot `vkb_intern` finds, looking from `i` on. -/
def internSlot (kind : Kind) (host : UInt64) : Option Nat :=
  (List.range t.count).find? fun i =>
    1 ≤ i ∧ (t.entries i).host = host ∧ (t.entries i).kind = kind

/-- `vkb_intern`: what a driver hands out again and again has one handle. -/
def intern (kind : Kind) (host : UInt64) : UInt64 × Table :=
  match t.internSlot kind host with
  | some i => (t.handle i, t)
  | none => t.register kind host 0

/-- `vkb_give_back`. -/
def giveBack (slot : Nat) : Table := { t with free := slot :: t.free }

/-- `vkb_forget`. -/
def forget (id : UInt64) (kind : Kind) : Table :=
  match t.entry id kind with
  | none => t
  | some e =>
    let slot := slotOf id
    let t := t.put slot { e with host := 0 }
    if e.parent = 0 ∧ e.firstChild = 0 then
      (t.put slot { t.entries slot with gen := (t.entries slot).gen + 1 }).giveBack slot
    else t

/-- What `vkb_forget_children` does to one slot of the list. -/
def drop (i : Nat) : Table :=
  let e := t.entries i
  (t.put i { e with host := 0, nextSibling := 0, gen := e.gen + 1 }).giveBack i

/-- The loop of `vkb_forget_children`. -/
def forgetLoop : Nat → Nat → Table → Table
  | 0, _, t => t
  | fuel + 1, i, t =>
    if i = 0 then t
    else forgetLoop fuel (t.entries i).nextSibling (t.drop i)

/-- `vkb_forget_children`. -/
def forgetChildren (parent : Nat) : Table :=
  if parent = 0 ∨ t.count ≤ parent then t
  else
    forgetLoop t.count (t.entries parent).firstChild
      (t.put parent { t.entries parent with firstChild := 0 })

/-- The loop of `destroy_objects`, from slot `i` down, and the objects whose case it comes to. -/
def destroyFrom : Nat → Table → List (Kind × UInt64) × Table
  | 0, t => ([], t)
  | i + 1, t =>
    let e := t.entries (i + 1)
    -- what a pool owns goes with the pool; an instance and a queue are not the device's
    if e.host = 0 ∨ e.parent ≠ 0 ∨ ¬ e.kind.ofDevice then destroyFrom i t
    else
      let (more, t) := destroyFrom i (t.put (i + 1) { e with host := 0 })
      ((e.kind, e.host) :: more, t)

/-- `destroy_objects`, where there is a device. -/
def destroyObjects : List (Kind × UInt64) × Table := destroyFrom (t.count - 1) t

/-- What `destroy_objects` has the driver destroy: `DESTROY` calls the function for a kind, if
the driver has it. -/
def destroyed (fn : Kind → Bool) : List (Kind × UInt64) :=
  t.destroyObjects.1.filter fun object => fn object.1

/-- Whether `forget_device_entries` ends what is in a slot. -/
def dies (i : Nat) : Bool :=
  1 ≤ i ∧ i < t.count ∧ (t.entries i).kind ≠ .instance_ ∧ (t.entries i).kind ≠ .physicalDevice

/-- `forget_device_entries`. -/
def forgetDeviceEntries : Table :=
  { t with entries := fun i =>
      if t.dies i then { t.entries i with host := 0 } else t.entries i }

end Table

/-! ## What is done to the table -/

inductive TableOp where
  | register (kind : Kind) (host : UInt64) (parent : Nat)
  | intern (kind : Kind) (host : UInt64)
  | forget (id : UInt64) (kind : Kind)
  | forgetChildren (parent : Nat)
  | destroyObjects
  | forgetDeviceEntries
  /-- the end of `destroy_context` -/
  | destroyContext
  /-- another ordinal, as `chimera_vk_host_state_loaded` takes one -/
  | nextOrdinal
  deriving DecidableEq, Repr

namespace TableOp

def run (t : Table) : TableOp → Table
  | .register kind host parent => (t.register kind host parent).2
  | .intern kind host => (t.intern kind host).2
  | .forget id kind => t.forget id kind
  | .forgetChildren parent => t.forgetChildren parent
  | .destroyObjects => t.destroyObjects.2
  | .forgetDeviceEntries => t.forgetDeviceEntries
  | .destroyContext => { t with count := 1, free := [], ordinal := t.ordinal + 1 }
  | .nextOrdinal => { t with ordinal := t.ordinal + 1 }

end TableOp

/-! ## Commands -/

/-- The pools: of command buffers, and of descriptor sets. -/
inductive Pool where
  | command
  | descriptor
  deriving DecidableEq, Repr

namespace Pool

def kind : Pool → Kind
  | command => .commandPool
  | descriptor => .descriptorPool

def child : Pool → Kind
  | command => .commandBuffer
  | descriptor => .descriptorSet

end Pool

/-- A handle in a command's arguments, which may be null or not. -/
structure Use where
  /-- the handle -/
  id : UInt64
  /-- what it has to name -/
  kind : Kind
  /-- whether it may be null -/
  optional : Bool
  deriving DecidableEq, Repr

/-- The table with `s_instance`, `s_physical` and `s_device`: the driver's, 0 for none. -/
structure Context where
  /-- the handles -/
  table : Table := {}
  /-- the one instance -/
  instance_ : UInt64 := 0
  /-- the one physical device -/
  physical : UInt64 := 0
  /-- the one device -/
  device : UInt64 := 0

/-- A command with its handles and with what the driver answers. -/
inductive Command where
  | createInstance (made physical : UInt64)
  | enumeratePhysicalDevices (instance_ : UInt64)
  | createDevice (physicalDevice made : UInt64)
  | getDeviceQueue (device queue : UInt64)
  /-- an object of a device, or several: the driver's handles, and whether it answered well -/
  | create (kind : Kind) (device : UInt64) (uses : List Use) (ok : Bool) (made : List UInt64)
  | destroy (kind : Kind) (device id : UInt64)
  | allocate (pool : Pool) (device id : UInt64) (uses : List Use) (ok : Bool) (made : List UInt64)
  | free (pool : Pool) (device id : UInt64) (ids : List UInt64)
  | resetDescriptorPool (device id : UInt64)
  | destroyPool (pool : Pool) (device id : UInt64)
  | destroyDevice (device : UInt64)
  | destroyInstance (instance_ : UInt64)
  | stateLoaded
  | shutdown
  deriving DecidableEq, Repr

namespace Context

variable (v : Context)

/-- Whether a handle names something of its kind, as `vkb_h` asks. -/
def names (id : UInt64) (kind : Kind) : Bool := (v.table.entry id kind).isSome

/-- Whether a handle of a command is taken: `vkb_h`, or `vkb_h0` for one that may be null. -/
def takes (use : Use) : Bool := use.optional && use.id == 0 || v.names use.id use.kind

/-- What `destroy_context` does to the table. -/
def endContext : List TableOp :=
  (if v.device ≠ 0 then [.destroyObjects] else []) ++ [.destroyContext]

end Context

namespace Command

/-- What a command does to the table.  A command that is refused does nothing to it. -/
def ops (v : Context) : Command → List TableOp
  | .createInstance made physical =>
    if v.instance_ ≠ 0 ∨ made = 0 ∨ physical = 0 then []
    else [.register .instance_ made 0]
  | .enumeratePhysicalDevices instance_ =>
    if v.names instance_ .instance_ then [.intern .physicalDevice v.physical] else []
  | .createDevice physicalDevice made =>
    if ¬ v.names physicalDevice .physicalDevice ∨ v.device ≠ 0 ∨ made = 0 then []
    else [.register .device made 0]
  | .getDeviceQueue device queue =>
    if v.names device .device then [.intern .queue queue] else []
  | .create kind device uses ok made =>
    -- a pipeline create writes every entry of its array, also when it fails
    if v.names device .device ∧ uses.all v.takes ∧ kind.ofDevice ∧ (ok ∨ kind = .pipeline) then
      made.map fun host => .register kind host 0
    else []
  | .destroy kind device id =>
    if v.names device .device ∧ v.names id kind ∧ kind.ofDevice ∧
        kind ≠ .commandPool ∧ kind ≠ .descriptorPool then
      [.forget id kind]
    else []
  | .allocate pool device id uses ok made =>
    -- the pool stands in a structure, whose handles may be null
    if v.names device .device ∧ v.takes ⟨id, pool.kind, true⟩ ∧ uses.all v.takes ∧ ok then
      made.map fun host => .register pool.child host (slotOf id)
    else []
  | .free pool device id ids =>
    if v.names device .device ∧ v.names id pool.kind ∧
        ids.all fun child => child == 0 || v.names child pool.child then
      ids.map fun child => .forget child pool.child
    else []
  | .resetDescriptorPool device id =>
    if v.names device .device ∧ v.names id .descriptorPool then [.forgetChildren (slotOf id)]
    else []
  | .destroyPool pool device id =>
    if v.names device .device ∧ v.names id pool.kind then
      [.forgetChildren (slotOf id), .forget id pool.kind]
    else []
  | .destroyDevice device =>
    if v.names device .device ∧ v.device ≠ 0 then [.destroyObjects, .forgetDeviceEntries] else []
  | .destroyInstance instance_ => if v.names instance_ .instance_ then v.endContext else []
  | .stateLoaded => v.endContext ++ [.nextOrdinal]
  | .shutdown => v.endContext

/-- What else a command changes. -/
def run (v : Context) (c : Command) : Context :=
  let v' := { v with table := (c.ops v).foldl TableOp.run v.table }
  if c.ops v = [] then v'
  else
    match c with
    | .createInstance made physical => { v' with instance_ := made, physical }
    | .createDevice _ made => { v' with device := made }
    | .destroyDevice _ => { v' with device := 0 }
    | .destroyInstance _ | .stateLoaded | .shutdown =>
      { v' with instance_ := 0, physical := 0, device := 0 }
    | _ => v'

end Command

end MiniBox.Vulkan
