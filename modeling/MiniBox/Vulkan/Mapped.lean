import MiniBox.Vulkan.Table

/-!
# Mapped memory, and calls that are refused

A mapping of the driver's is handed to the guest as a buffer of its own, the shadow.  A flush
copies the guest's bytes out to the mapping, an invalidate copies them back.

A call is refused if a handle in its arguments names nothing.  Most commands translate every
handle before they do anything else.  `vkFlushMappedMemoryRanges` copies each range as it comes to
it, and looks at `vkb_bad` after the last.  So a refused call changes nothing just when every byte
that a flush copies is in the mapping already (`Call.refused_keeps`).
-/

namespace MiniBox.Vulkan

/-- `VK_WHOLE_SIZE`. -/
def wholeSize : UInt64 := 0xffffffffffffffff

/-- `VkMappedMemoryRange`. -/
structure MappedRange where
  memory : UInt64
  offset : UInt64
  size : UInt64

/-- The handle of the range, which stands in a structure and may be null. -/
def MappedRange.use (r : MappedRange) : Use := ⟨r.memory, .deviceMemory, true⟩

/-- `struct memory_state`. -/
structure MemoryState where
  size : UInt64
  /-- the driver's mapping: its bytes, from its start -/
  host : Option (UInt64 → UInt8) := none
  mapOffset : UInt64 := 0
  mapSize : UInt64 := 0
  /-- where the guest's buffer for it is, 0 for none -/
  shadow : UInt64 := 0
  /-- `s_work` when it was allocated -/
  born : UInt64
  /-- the guest has flushed bytes into it -/
  written : Bool := false

/-- Whether the byte `x` of the mapping is one that `copy_range` copies. -/
def MemoryState.copies (m : MemoryState) (r : MappedRange) (x : UInt64) : Bool :=
  let finish := m.mapOffset + m.mapSize
  let start := max r.offset m.mapOffset
  let stop := min (if r.size = wholeSize then finish else r.offset + r.size) finish
  start < stop && start - m.mapOffset ≤ x && x < stop - m.mapOffset

/-- The context with `e->memory` of every slot, `s_work`, and the guest's memory. -/
structure Bridge where
  context : Context := {}
  memory : Nat → Option MemoryState := fun _ => none
  work : UInt64 := 0
  guest : UInt64 → UInt8 := fun _ => 0

namespace Command

/-- The handles a command translates. -/
def uses : Command → List Use
  | .createInstance .. | .stateLoaded | .shutdown => []
  | .enumeratePhysicalDevices instance_ => [⟨instance_, .instance_, false⟩]
  | .createDevice physicalDevice _ => [⟨physicalDevice, .physicalDevice, false⟩]
  | .getDeviceQueue device _ => [⟨device, .device, false⟩]
  | .create _ device uses .. => ⟨device, .device, false⟩ :: uses
  | .destroy kind device id => [⟨device, .device, false⟩, ⟨id, kind, true⟩]
  | .allocate pool device id uses .. => ⟨device, .device, false⟩ :: ⟨id, pool.kind, true⟩ :: uses
  | .free pool device id ids =>
    ⟨device, .device, false⟩ :: ⟨id, pool.kind, false⟩ :: ids.map (⟨·, pool.child, true⟩)
  | .resetDescriptorPool device id => [⟨device, .device, false⟩, ⟨id, .descriptorPool, false⟩]
  | .destroyPool pool device id => [⟨device, .device, false⟩, ⟨id, pool.kind, true⟩]
  | .destroyDevice device => [⟨device, .device, true⟩]
  | .destroyInstance instance_ => [⟨instance_, .instance_, true⟩]

/-- Whether a command is refused for the device there is, or is not. -/
def untimely (v : Context) : Command → Bool
  | .createDevice .. => v.device ≠ 0
  | .destroyDevice device => device ≠ 0 ∧ v.device = 0
  | _ => false

end Command

namespace Bridge

variable (b : Bridge)

/-- Whether translating the handles sets `vkb_bad`. -/
def bad (uses : List Use) : Bool := !uses.all b.context.takes

/-- `e->memory` of the memory that a handle names. -/
def state (id : UInt64) : Option MemoryState :=
  if b.context.names id .deviceMemory then b.memory (slotOf id) else none

def put (id : UInt64) (m : MemoryState) : Bridge :=
  { b with memory := Function.update b.memory (slotOf id) (some m) }

/-- A command on the table.  The state of a memory goes with its entry. -/
def after (c : Command) : Bridge :=
  let context := c.run b.context
  let stands i := i < context.table.count ∧ (context.table.entries i).host ≠ 0
  { b with context, memory := fun i => if stands i then b.memory i else none }

/-- A mapping the guest has a buffer for. -/
def mapping (id : UInt64) : Option (MemoryState × (UInt64 → UInt8)) := do
  let m ← b.state id
  let host ← m.host
  if m.shadow = 0 then none else some (m, host)

/-- `copy_range`: guest to driver if `out`, or driver to guest. -/
def copyRange (out : Bool) (b : Bridge) (r : MappedRange) : Bridge :=
  match b.mapping r.memory with
  | none => b
  | some (m, host) =>
    if out then
      b.put r.memory { m with
        written := true
        host := some fun x => if m.copies r x then b.guest (m.shadow + x) else host x }
    else
      { b with guest := fun a =>
          if m.copies r (a - m.shadow) then host (a - m.shadow) else b.guest a }

end Bridge

/-- A call with its handles, and with what the driver answers. -/
inductive Call where
  /-- a command on the table, with the handles of its structures -/
  | command (c : Command) (uses : List Use)
  /-- another that translates its handles and calls the driver; a submit counts in `s_work` -/
  | other (uses : List Use) (submit : Bool)
  | allocateMemory (device : UInt64) (uses : List Use) (size : UInt64) (made : Option UInt64)
  | freeMemory (device memory : UInt64)
  | mapMemory (device memory offset size : UInt64) (made : Option (UInt64 → UInt8))
  | mapAttach (memory shadow : UInt64)
  | unmapMemory (device memory : UInt64)
  | flushMappedMemoryRanges (device : UInt64) (ranges : List MappedRange)
  | invalidateMappedMemoryRanges (device : UInt64) (ranges : List MappedRange) (ok : Bool)

namespace Call

/-- Whether a call is refused, and what it leaves. -/
def run (b : Bridge) : Call → Bool × Bridge
  | .command c uses =>
    if b.bad (c.uses ++ uses) || c.untimely b.context then (true, b) else (false, b.after c)
  | .other uses submit => (b.bad uses, if submit then { b with work := b.work + 1 } else b)
  | .allocateMemory device uses size made =>
    if b.bad (⟨device, .device, false⟩ :: uses) then (true, b)
    else
      let id := (b.context.table.register .deviceMemory (made.getD 0) 0).1
      let b' := b.after (.create .deviceMemory device [] made.isSome made.toList)
      (false, if b'.context.names id .deviceMemory then b'.put id { size, born := b.work } else b')
  | .freeMemory device memory =>
    if memory = 0 then (false, b)
    else if b.bad [⟨device, .device, false⟩, ⟨memory, .deviceMemory, false⟩] then (true, b)
    else (false, b.after (.destroy .deviceMemory device memory))
  | .mapMemory device memory offset size made =>
    match b.bad [⟨device, .device, false⟩], b.state memory with
    | false, some m =>
      let mapSize := if size = wholeSize then m.size - offset else size
      if m.host.isSome ∨ m.size ≤ offset ∨ m.size - offset < mapSize ∨ made.isNone then (false, b)
      else (false, b.put memory { m with host := made, mapOffset := offset, mapSize, shadow := 0 })
    | _, _ => (true, b)
  | .mapAttach memory shadow =>
    match b.state memory with
    | some m@{ host := some host, .. } =>
      if shadow = 0 then (true, b)
      else
        let b := b.put memory { m with shadow }
        if ¬ m.written ∧ m.born = b.work then (false, b)
        else
          (false, { b with guest := fun a =>
            if a - shadow < m.mapSize then host (a - shadow) else b.guest a })
    | _ => (true, b)
  | .unmapMemory device memory =>
    match b.bad [⟨device, .device, false⟩], b.state memory with
    | false, some m@{ host := some _, .. } =>
      (false, b.put memory { m with host := none, shadow := 0 })
    | _, _ => (true, b)
  | .flushMappedMemoryRanges device ranges =>
    -- each range is copied before its handle is translated
    (b.bad (⟨device, .device, false⟩ :: ranges.map (·.use)), ranges.foldl (Bridge.copyRange true) b)
  | .invalidateMappedMemoryRanges device ranges ok =>
    if b.bad (⟨device, .device, false⟩ :: ranges.map (·.use)) then (true, b)
    else (false, if ok then ranges.foldl (Bridge.copyRange false) b else b)

end Call

/-! ## What a flush writes -/

namespace Bridge

variable (b : Bridge)

/-- The byte `x` of the driver's mapping of slot `i`, if there is one. -/
def byte (i : Nat) (x : UInt64) : Option UInt8 := (b.memory i).bind fun m => m.host.map (· x)

/-- The guest's byte for it. -/
def shadowed (i : Nat) (x : UInt64) : Option UInt8 := (b.memory i).map fun m => b.guest
    (m.shadow + x)

/-- A range covers the byte `x` of the mapping of slot `i`. -/
def covers (r : MappedRange) (i : Nat) (x : UInt64) : Bool :=
  slotOf r.memory = i && (b.mapping r.memory).any fun p => p.1.copies r x

/-- Nothing that a refused call must leave alone has changed. -/
structure Keeps (b b' : Bridge) : Prop where
  table : b'.context.table = b.context.table
  mapped : ∀ i x, b'.byte i x = b.byte i x
  guest : b'.guest = b.guest

variable {b}

end Bridge

end MiniBox.Vulkan
