import MiniBox.Elf.Check
import MiniBox.Host.Guest

/-!
# Loading an image

`mb_elf_span` and `mb_elf_load`, as the builds for Linux and Windows have them.  Every read
of the image is one of `Image.read`, `Image.text` and `Image.copy`, so that a read that does
not lie in the image stops the function.
-/

namespace MiniBox.Elf

open Lib

/-! ## The span -/

/-- One turn of the loop of `mb_elf_span`, which keeps the lowest start and the highest end. -/
def spanStep (image : Image) (eh : Ehdr) (i : Nat) (s : UInt64 × UInt64) :
    Except Stop (UInt64 × UInt64) := do
  let ph ← image.phdr eh i
  if ph.vaddr = 0 then return s
  let lo := if ph.vaddr < s.1 then ph.vaddr else s.1
  let hi := if s.2 < ph.vaddr + ph.memsz then ph.vaddr + ph.memsz else s.2
  return (lo, hi)

/-- `mb_elf_span`. -/
def span (image : Image) : Except Stop Range := do
  let eh ← image.ehdr
  let (lo, hi) ← (List.range eh.phnum.toNat).foldlM (fun s i => spanStep image eh i s)
    (0xffffffffffffffff, 0)
  return ⟨lo, hi - lo⟩

/-! ## Sections and symbols -/

structure SectionInfo where
  name : Bytes
  addr : Range
  deriving DecidableEq

structure ExportInfo where
  name : Bytes
  value : UInt64
  size : UInt64
  deriving DecidableEq

/-- `struct mb_elf`. -/
structure Loaded where
  sections : List SectionInfo
  exports : List ExportInfo
  entry : UInt64
  hash : Bytes
  hasTls : Bool

/-- What the loop over the sections keeps: what is loaded, and the symbol table. -/
structure Sections where
  sections : List SectionInfo := []
  symtab : Option (Shdr × Nat) := none

/-- One turn of the loop over the sections.  The name is read if the section has bytes. -/
def sectionStep (image : Image) (eh : Ehdr) (shstr : Shdr) (i : Nat) (s : Sections) :
    Except Stop Sections := do
  let sh ← image.shdr eh i
  let mut s := s
  if sh.type ≠ shtNobits then
    let name ← image.text (shstr.offset + sh.name.toUInt64)
    if name ≠ [] ∧ sh.addr ≠ 0 then
      s := { s with sections := s.sections ++ [⟨name, ⟨sh.addr, sh.size⟩⟩] }
  if sh.type = shtSymtab then
    s := { s with symtab := some (sh, sh.link.toNat) }
  return s

/-- "__wbxsysinfo". -/
def wbxSysInfo : Bytes := [0x5f, 0x5f, 0x77, 0x62, 0x78, 0x73, 0x79, 0x73, 0x69, 0x6e, 0x66, 0x6f]

/-- What the loop over the symbols keeps: the exports, and where `__wbxsysinfo` is. -/
structure Symbols where
  exports : List ExportInfo := []
  info : Range := ⟨0, 0⟩

/-- One turn of the loop over the symbols. -/
def symbolStep (image : Image) (symtab strtab : Shdr) (i : Nat) (s : Symbols) :
    Except Stop Symbols := do
  let sym ← image.sym symtab i
  let name ← image.text (strtab.offset + sym.name.toUInt64)
  if name = [] then return s
  let bind := sym.info >>> 4
  let vis := sym.other &&& 3
  let mut s := s
  if vis = 0 ∧ bind = 1 then
    s := { s with exports := s.exports ++ [⟨name, sym.value, sym.size⟩] }
  if name = wbxSysInfo then
    s := { s with info := ⟨sym.value, sym.size⟩ }
  return s

/-- The exports and `__wbxsysinfo`, where there is a symbol table. -/
def symbols (image : Image) (eh : Ehdr) : Option (Shdr × Nat) → Except Stop Symbols
  | none => .ok {}
  | some (symtab, link) => do
      let strtab ← image.shdr eh link
      (List.range (symtab.size.toNat / Sym.bytes)).foldlM
        (fun s i => symbolStep image symtab strtab i s) {}

/-! ## Memory -/

/-- ".invis". -/
def invisName : Bytes := [0x2e, 0x69, 0x6e, 0x76, 0x69, 0x73]

/-- Whether a section other than `.invis` itself overlaps the pages of `.invis`. -/
def overlapsInvis (iv : Range) (s : SectionInfo) : Bool :=
  let s := s.addr.alignExpand
  s.size ≠ 0 && s.start < iv.finish && iv.start < s.finish

/-- `.invis` marked invisible; `none` if another section overlaps it. -/
def markInvis (sections : List SectionInfo) (b : Block) : Option Block :=
  match sections.findIdx? (·.name == invisName) with
  | none => some b
  | some i =>
    match sections[i]? with
    | none => some b
    | some iv =>
      if (sections.eraseIdx i).any (overlapsInvis iv.addr.alignExpand) then none
      else some (b.markInvisible iv.addr.alignExpand).2

def segmentProt (flags : UInt32) : Prot :=
  if flags &&& pfW ≠ 0 then (if flags &&& pfX ≠ 0 then .rwx else .rw)
  else if flags &&& pfX ≠ 0 then .rx
  else if flags &&& pfR ≠ 0 then .r
  else .none

/-- One turn of the loop over the segments, with whether there is thread-local storage. -/
def segmentStep (image : Image) (eh : Ehdr) (i : Nat) (s : Bool × Block) :
    Except Stop (Bool × Block) := do
  let ph ← image.phdr eh i
  let tls := s.1 || ph.type == ptTls && ph.memsz != 0
  let b := s.2
  if ph.type ≠ ptLoad ∨ ph.vaddr = 0 then return (tls, b)
  let pa := Range.alignExpand ⟨ph.vaddr, ph.memsz⟩
  if pa.size = 0 then return (tls, b)
  let b := (b.mmapFixed pa .rw false false).2
  let bytes ← image.copy ph.offset ph.filesz
  let b := if ph.filesz ≠ 0 then (b.copyFromExternal bytes ph.vaddr).2 else b
  return (tls, (b.mprotect pa (segmentProt ph.flags)).2)

def encodeRange (r : Range) : Bytes := le 8 r.start.toNat ++ le 8 r.size.toNat

/-- The bytes of a layout, as the guest's `__wbxsysinfo` has them. -/
def encodeLayout (l : Layout) : Bytes :=
  [l.elf, l.mainThread, l.altThread, l.sbrk, l.sealed_, l.invis, l.plain, l.mmapArena].flatMap
    encodeRange

/-- A guest stack: the low four pages guarded, and all of it invisible. -/
def mapStack (stack : Range) (b : Block) : Block :=
  let b := (b.mmapFixed stack .rwStack true false).2
  let b := (b.mprotect ⟨stack.start, 4 * 0x1000⟩ .none).2
  (b.markInvisible stack).2

/-- `mb_elf_load`; no answer is its -1. -/
def load (image : Image) (layout : Layout) (b : Block) : Except Stop (Option Loaded × Block) := do
  if image.bytes.length < Ehdr.size then return (none, b)
  let eh ← image.ehdr
  if ¬ isElf64 eh then return (none, b)
  let shstr ← image.shdr eh eh.shstrndx.toNat
  let found ← (List.range eh.shnum.toNat).foldlM (fun s i => sectionStep image eh shstr i s) {}
  let syms ← symbols image eh found.symtab
  match markInvis found.sections b with
  | none => return (none, b)
  | some b =>
    let b := (b.markInvisible layout.invis).2
    let (tls, b) ← (List.range eh.phnum.toNat).foldlM (fun s i => segmentStep image eh i s)
      (false, b)
    if syms.info.start ≠ 0 ∧ syms.info.size ≠ UInt64.ofNat (encodeLayout layout).length then
      return (none, b)
    let b := if syms.info.start ≠ 0 then (b.copyFromExternal
      (encodeLayout layout) syms.info.start).2
      else b
    let b := mapStack layout.altThread (mapStack layout.mainThread b)
    return (some ⟨found.sections, syms.exports, eh.entry, Sha256.digest [image.bytes], tls⟩, b)

end MiniBox.Elf
