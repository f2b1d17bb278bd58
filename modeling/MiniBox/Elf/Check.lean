import MiniBox.Elf.Format

/-!
# The check of an image

`mb_elf_check` follows every offset and count of an image before the loader does.  A read of
the image stops with `Stop.outside` when a byte of it is not in the image, and a refusal is
`Stop.refused`.  A record is read whole.
-/

namespace MiniBox.Elf

open Lib

/-- The bytes of a file in the host's memory. -/
structure Image where
  bytes : Bytes
  fits : bytes.length < 2 ^ 64

/-- What `mb_elf_check` says of an image it refuses. -/
inductive Refusal where
  | notElf
  | programHeaders
  | noSections
  | sectionHeaders
  | noNameTable
  | sectionOutside (i : Nat)
  | noStringTable
  | namesOpen
  | nameOutside (i : Nat)
  | stringsOpen
  | symbolOutside (k : Nat)
  | segmentOutside (i : Nat)
  | segmentWraps (i : Nat)
  | threadPointer (address : UInt64)
  deriving DecidableEq, Repr

/-- `%#llx`. -/
def hex (n : UInt64) : String :=
  if n = 0 then "0" else "0x" ++ String.ofList (Nat.toDigits 16 n.toNat)

def Refusal.text : Refusal → String
  | .notElf => "not an ELF64 image"
  | .programHeaders => "the image's program headers lie outside it"
  | .noSections => "the image has no section headers"
  | .sectionHeaders => "the image's section headers lie outside it"
  | .noNameTable => "the image names no section-name table"
  | .sectionOutside i => "section " ++ toString i ++ " lies outside the image"
  | .noStringTable => "the symbol table names no string table"
  | .namesOpen => "the section-name table is not terminated"
  | .nameOutside i => "section " ++ toString i ++ "'s name lies outside its table"
  | .stringsOpen => "the symbol string table is not terminated"
  | .symbolOutside k => "symbol " ++ toString k ++ "'s name lies outside its table"
  | .segmentOutside i => "segment " ++ toString i ++ " lies outside the image"
  | .segmentWraps i => "segment " ++ toString i ++ " wraps the address space"
  | .threadPointer address =>
    "the core reads its thread pointer from TPIDR_EL0 (at " ++ hex address ++
      "), so it was built before the aarch64 machine kept it elsewhere; rebuild it with the " ++
      "current guest kit"

inductive Stop where
  /-- a read of `size` bytes at `offset` that does not lie in the image -/
  | outside (offset : UInt64) (size : Nat)
  | refused (why : Refusal)
  deriving DecidableEq, Repr

namespace Image

variable (image : Image)

def len : UInt64 := UInt64.ofNat image.bytes.length

/-- A read of `size` bytes, from which `value` is made. -/
def read {α : Type} (offset : UInt64) (size : Nat) (value : Bytes → Nat → α) : Except Stop α :=
  if offset.toNat + size ≤ image.bytes.length then .ok (value image.bytes offset.toNat)
  else .error (.outside offset size)

def byte (offset : UInt64) : Except Stop UInt8 := image.read offset 1 fun bs i => (bs[i]?).getD 0

def word (offset : UInt64) : Except Stop UInt32 := image.read offset 4 u32At

def ehdr : Except Stop Ehdr := image.read 0 Ehdr.size Ehdr.at_

/-- Entry `i` of the program headers. -/
def phdr (eh : Ehdr) (i : Nat) : Except Stop Phdr :=
  image.read (eh.phoff + UInt64.ofNat i * eh.phentsize.toUInt64) Phdr.size Phdr.at_

/-- Entry `i` of the section headers. -/
def shdr (eh : Ehdr) (i : Nat) : Except Stop Shdr :=
  image.read (eh.shoff + UInt64.ofNat i * 64) Shdr.bytes Shdr.at_

/-- Entry `k` of a symbol table. -/
def sym (symtab : Shdr) (k : Nat) : Except Stop Sym :=
  image.read (symtab.offset + UInt64.ofNat k * 24) Sym.bytes Sym.at_

/-- A text of the image, read up to its terminator. -/
def text (offset : UInt64) : Except Stop Bytes :=
  match textAt image.bytes offset.toNat with
  | some name => .ok name
  | none => .error (.outside offset (image.bytes.length - offset.toNat + 1))

/-- `size` bytes of the image; none are read when `size` is 0. -/
def copy (offset size : UInt64) : Except Stop Bytes :=
  if size = 0 then .ok []
  else image.read offset size.toNat fun bs i => (bs.drop i).take size.toNat

end Image

/-- `within`: whether a range lies inside the image, without overflowing. -/
def within (off size len : UInt64) : Bool := off ≤ len && size ≤ len - off

def require (ok : Bool) (why : Refusal) : Except Stop Unit :=
  if ok then .ok () else .error (.refused why)

/-- `strings_end`: whether the last byte of a string table is its terminator. -/
def stringsEnd (image : Image) (s : Shdr) : Except Stop Bool :=
  if s.type = shtNobits ∨ s.size = 0 then .ok false
  else do
    let last ← image.byte (s.offset + s.size - 1)
    return last == 0

/-! ## What is checked -/

def isElf64 (eh : Ehdr) : Bool := eh.ident.take 4 == magic && eh.ident[4]? == some 2

/-- The first loop over the sections. -/
def checkSection (image : Image) (eh : Ehdr) (i : Nat) : Except Stop Unit := do
  let s ← image.shdr eh i
  require (s.type == shtNobits || within s.offset s.size image.len) (.sectionOutside i)
  require (s.type != shtSymtab || s.link < eh.shnum.toUInt32) .noStringTable

def checkSymbol (image : Image) (symtab strings : Shdr) (k : Nat) : Except Stop Unit := do
  let sym ← image.sym symtab k
  require (sym.name.toUInt64 < strings.size) (.symbolOutside k)

/-- The second loop over the sections: the names of sections, and the names of symbols. -/
def checkNames (image : Image) (eh : Ehdr) (names : Shdr) (i : Nat) : Except Stop Unit := do
  let s ← image.shdr eh i
  require (s.name.toUInt64 < names.size) (.nameOutside i)
  if s.type ≠ shtSymtab then return ()
  let strings ← image.shdr eh s.link.toNat
  require (← stringsEnd image strings) .stringsOpen
  (List.range (s.size.toNat / Sym.bytes)).forM (checkSymbol image s strings)

def checkSegment (image : Image) (eh : Ehdr) (i : Nat) : Except Stop Unit := do
  let ph ← image.phdr eh i
  if ph.type ≠ ptLoad then return ()
  require (within ph.offset ph.filesz image.len && ph.filesz ≤ ph.memsz) (.segmentOutside i)
  require (ph.vaddr ≤ ph.vaddr + ph.memsz) (.segmentWraps i)

/-! ## The thread pointer -/

/-- Whether section `i` is the one the guest kit leaves in an image it has rewritten. -/
def isRewritten (image : Image) (eh : Ehdr) (names : Shdr) (i : Nat) : Except Stop Bool := do
  let s ← image.shdr eh i
  let name ← image.text (names.offset + s.name.toUInt64)
  return name == wbxTp

/-- The loop that looks for that section, from `i` on. -/
def anyRewritten (image : Image) (eh : Ehdr) (names : Shdr) : (left i : Nat) → Except Stop Bool
  | 0, _ => .ok false
  | left + 1, i => do
      if ← isRewritten image eh names i then return true
      anyRewritten image eh names left (i + 1)

def checkWord (image : Image) (ph : Phdr) (k : Nat) : Except Stop Unit := do
  let w ← image.word (ph.offset + UInt64.ofNat (4 * k))
  require (!(isMrs w || isMsr w)) (.threadPointer (ph.vaddr + UInt64.ofNat (4 * k)))

/-- The words of an executable segment. -/
def checkWords (image : Image) (eh : Ehdr) (i : Nat) : Except Stop Unit := do
  let ph ← image.phdr eh i
  if ph.type ≠ ptLoad ∨ ph.flags &&& pfX = 0 then return ()
  (List.range (ph.filesz.toNat / 4)).forM (checkWord image ph)

/-- What an aarch64 host checks besides. -/
def checkThreadPointer (image : Image) (eh : Ehdr) (names : Shdr) : Except Stop Unit := do
  if eh.machine ≠ emAarch64 then return ()
  if ← anyRewritten image eh names eh.shnum.toNat 0 then return ()
  (List.range eh.phnum.toNat).forM (checkWords image eh)

/-- What every host checks; the answer is the section-name table. -/
def checkTables (image : Image) (eh : Ehdr) : Except Stop Shdr := do
  require (eh.phnum == 0 || eh.phentsize ≥ 56 &&
    within eh.phoff (eh.phnum.toUInt64 * eh.phentsize.toUInt64) image.len) .programHeaders
  require (eh.shnum != 0) .noSections
  require (eh.shentsize == 64 && within eh.shoff (eh.shnum.toUInt64 * 64) image.len) .sectionHeaders
  require (eh.shstrndx < eh.shnum) .noNameTable
  (List.range eh.shnum.toNat).forM (checkSection image eh)
  let names ← image.shdr eh eh.shstrndx.toNat
  require (← stringsEnd image names) .namesOpen
  (List.range eh.shnum.toNat).forM (checkNames image eh names)
  (List.range eh.phnum.toNat).forM (checkSegment image eh)
  return names

/-- The header of an image, where it is one. -/
def checkHeader (image : Image) : Except Stop Ehdr := do
  require (Ehdr.size ≤ image.bytes.length) .notElf
  let eh ← image.ehdr
  require (isElf64 eh) .notElf
  return eh

/-- `mb_elf_check`, as a host for aarch64 is built or as the others are. -/
def check (aarch64 : Bool) (image : Image) : Except Stop Unit := do
  let eh ← checkHeader image
  let names ← checkTables image eh
  if aarch64 then checkThreadPointer image eh names

end MiniBox.Elf
