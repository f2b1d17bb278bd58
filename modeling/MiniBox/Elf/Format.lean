import MiniBox.Lib.Slice

/-!
# ELF64 images

The records of an image that the host and the guest kit read, each at its place in the bytes
of the file.
-/

namespace MiniBox.Elf

open Lib

/-- `Elf64_Ehdr`; `ident` is its 16 bytes. -/
structure Ehdr where
  ident : Bytes
  type : UInt16
  machine : UInt16
  version : UInt32
  entry : UInt64
  phoff : UInt64
  shoff : UInt64
  flags : UInt32
  ehsize : UInt16
  phentsize : UInt16
  phnum : UInt16
  shentsize : UInt16
  shnum : UInt16
  shstrndx : UInt16
  deriving DecidableEq, Repr

/-- `Elf64_Phdr`. -/
structure Phdr where
  type : UInt32
  flags : UInt32
  offset : UInt64
  vaddr : UInt64
  paddr : UInt64
  filesz : UInt64
  memsz : UInt64
  align : UInt64
  deriving DecidableEq, Repr

/-- `Elf64_Shdr`. -/
structure Shdr where
  name : UInt32
  type : UInt32
  flags : UInt64
  addr : UInt64
  offset : UInt64
  size : UInt64
  link : UInt32
  info : UInt32
  addralign : UInt64
  entsize : UInt64
  deriving DecidableEq, Repr

/-- `Elf64_Sym`. -/
structure Sym where
  name : UInt32
  info : UInt8
  other : UInt8
  shndx : UInt16
  value : UInt64
  size : UInt64
  deriving DecidableEq, Repr

/-! ## Where they stand -/

def Ehdr.size : Nat := 64
def Phdr.size : Nat := 56
def Shdr.bytes : Nat := 64
def Sym.bytes : Nat := 24

def Ehdr.at_ (bs : Bytes) (i : Nat) : Ehdr where
  ident := (bs.drop i).take 16
  type := u16At bs (i + 16)
  machine := u16At bs (i + 18)
  version := u32At bs (i + 20)
  entry := u64At bs (i + 24)
  phoff := u64At bs (i + 32)
  shoff := u64At bs (i + 40)
  flags := u32At bs (i + 48)
  ehsize := u16At bs (i + 52)
  phentsize := u16At bs (i + 54)
  phnum := u16At bs (i + 56)
  shentsize := u16At bs (i + 58)
  shnum := u16At bs (i + 60)
  shstrndx := u16At bs (i + 62)

def Phdr.at_ (bs : Bytes) (i : Nat) : Phdr where
  type := u32At bs i
  flags := u32At bs (i + 4)
  offset := u64At bs (i + 8)
  vaddr := u64At bs (i + 16)
  paddr := u64At bs (i + 24)
  filesz := u64At bs (i + 32)
  memsz := u64At bs (i + 40)
  align := u64At bs (i + 48)

def Shdr.at_ (bs : Bytes) (i : Nat) : Shdr where
  name := u32At bs i
  type := u32At bs (i + 4)
  flags := u64At bs (i + 8)
  addr := u64At bs (i + 16)
  offset := u64At bs (i + 24)
  size := u64At bs (i + 32)
  link := u32At bs (i + 40)
  info := u32At bs (i + 44)
  addralign := u64At bs (i + 48)
  entsize := u64At bs (i + 56)

def Sym.at_ (bs : Bytes) (i : Nat) : Sym where
  name := u32At bs i
  info := (bs[i + 4]?).getD 0
  other := (bs[i + 5]?).getD 0
  shndx := u16At bs (i + 6)
  value := u64At bs (i + 8)
  size := u64At bs (i + 16)

/-! ## How they are written -/

def Ehdr.encode (h : Ehdr) : Bytes :=
  h.ident ++ le 2 h.type.toNat ++ le 2 h.machine.toNat ++ le 4 h.version.toNat ++
    le 8 h.entry.toNat ++ le 8 h.phoff.toNat ++ le 8 h.shoff.toNat ++ le 4 h.flags.toNat ++
    le 2 h.ehsize.toNat ++ le 2 h.phentsize.toNat ++ le 2 h.phnum.toNat ++
    le 2 h.shentsize.toNat ++ le 2 h.shnum.toNat ++ le 2 h.shstrndx.toNat

def Phdr.encode (p : Phdr) : Bytes :=
  le 4 p.type.toNat ++ le 4 p.flags.toNat ++ le 8 p.offset.toNat ++ le 8 p.vaddr.toNat ++
    le 8 p.paddr.toNat ++ le 8 p.filesz.toNat ++ le 8 p.memsz.toNat ++ le 8 p.align.toNat

def Shdr.encode (s : Shdr) : Bytes :=
  le 4 s.name.toNat ++ le 4 s.type.toNat ++ le 8 s.flags.toNat ++ le 8 s.addr.toNat ++
    le 8 s.offset.toNat ++ le 8 s.size.toNat ++ le 4 s.link.toNat ++ le 4 s.info.toNat ++
    le 8 s.addralign.toNat ++ le 8 s.entsize.toNat

/-! ## Numbers with a name -/

def ptLoad : UInt32 := 1
def ptTls : UInt32 := 7
def pfX : UInt32 := 1
def pfW : UInt32 := 2
def pfR : UInt32 := 4
def shtSymtab : UInt32 := 2
def shtNobits : UInt32 := 8
def emAarch64 : UInt16 := 183

/-- 0x7f, "ELF". -/
def magic : Bytes := [0x7f, 0x45, 0x4c, 0x46]

/-- ".wbx_tp". -/
def wbxTp : Bytes := [0x2e, 0x77, 0x62, 0x78, 0x5f, 0x74, 0x70]

/-- `mrs xN, tpidr_el0` or `msr tpidr_el0, xN`, for any `N`. -/
def isMrs (word : UInt32) : Bool := word &&& ~~~0x1f == 0xd53bd040
def isMsr (word : UInt32) : Bool := word &&& ~~~0x1f == 0xd51bd040

end MiniBox.Elf
