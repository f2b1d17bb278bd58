import MiniBox.Elf.Reads

/-!
# The patches of an Intel Mac

There `mb_elf_load` changes the thread-pointer loads that `.wbx_fs_sites` lists as it copies
the segment they are in.  The bytes of a load are read from the image by the address the list
gives, so that what is read there depends on the list: `beyond` is what the host's memory holds
past the image.  `looked` keeps the addresses whose bytes were read.
-/

namespace MiniBox.Elf

open Lib

/-- ".wbx_fs_sites". -/
def wbxFsSites : Bytes :=
  [0x2e, 0x77, 0x62, 0x78, 0x5f, 0x66, 0x73, 0x5f, 0x73, 0x69, 0x74, 0x65, 0x73]

/-- What `.wbx_fs_sites` says: how many other references to `%fs` there are, and where each load
of the thread pointer is. -/
structure FsSites where
  /-- how many places reach thread-local variables otherwise -/
  other : UInt64
  /-- the addresses of the loads -/
  sites : List UInt64
  deriving DecidableEq

def Image.quad (image : Image) (offset : UInt64) : Except Stop UInt64 := image.read offset 8 u64At

/-- What the loop over the sections does besides. -/
def fsStep (image : Image) (eh : Ehdr) (shstr : Shdr) (i : Nat) (s : Option FsSites) :
    Except Stop (Option FsSites) := do
  let sh ← image.shdr eh i
  let name ← image.text (shstr.offset + sh.name.toUInt64)
  if name ≠ wbxFsSites ∨ sh.size < 16 ∨ sh.size % 8 ≠ 0 ∨ ¬ within sh.offset sh.size image.len then
    return s
  if (← image.quad sh.offset) ≠ 1 then return s
  let other ← image.quad (sh.offset + 8)
  let sites ← (List.range ((sh.size - 16) / 8).toNat).mapM fun k =>
    image.quad (sh.offset + 16 + UInt64.ofNat k * 8)
  return some ⟨other, sites⟩

/-- `is_tp_load`: `mov %fs:0x0, reg`. -/
def isTpLoad (p : Nat → UInt8) : Bool :=
  p 0 == 0x64 && p 1 &&& 0xfb == 0x48 && p 2 == 0x8b && p 3 &&& 0xc7 == 0x04 && p 4 == 0x25 &&
    p 5 == 0 && p 6 == 0 && p 7 == 0 && p 8 == 0

/-- `mov %gs:0x48, reg`. -/
def asGuestTp (p : Nat → UInt8) : Bytes :=
  (List.range 9).map fun k => if k = 0 then 0x65 else if k = 5 then 9 * 8 else p k

/-- The bytes at `image + offset`. -/
def Image.around (image : Image) (beyond : UInt64 → UInt8) (offset : UInt64) (k : Nat) : UInt8 :=
  (image.bytes[(offset + UInt64.ofNat k).toNat]?).getD (beyond (offset + UInt64.ofNat k))

structure Patches where
  block : Block
  /-- the addresses whose nine bytes were read, and whether they were changed -/
  looked : List (UInt64 × Bool) := []
  refusal : String := ""

/-- The test of an address against a segment. -/
def reaches (ph : Phdr) (at_ : UInt64) : Bool :=
  !(decide (at_ < ph.vaddr) || decide (ph.vaddr + ph.filesz < at_ + 9))

/-- One turn of the loop over the sites. -/
def patchSite (image : Image) (beyond : UInt64 → UInt8) (ph : Phdr) (p : Patches) (at_ : UInt64) :
    Patches :=
  if !reaches ph at_ then p
  else
    let insn := image.around beyond (ph.offset + (at_ - ph.vaddr))
    if !isTpLoad insn then
      { p with
        looked := p.looked ++ [(at_, false)]
        refusal := "the core's list of thread-pointer loads names " ++ hex at_ ++
          ", which is not one: it cannot run on an Intel Mac" }
    else
      { p with
        looked := p.looked ++ [(at_, true)]
        block := (p.block.copyFromExternal (asGuestTp insn) at_).2 }

/-- Whether the loop over the segments patches one. -/
def patches (ph : Phdr) : Bool :=
  ph.type == ptLoad && ph.vaddr != 0 && (Range.alignExpand ⟨ph.vaddr, ph.memsz⟩).size != 0 &&
    ph.flags &&& pfX != 0

/-- One turn of the loop over the segments. -/
def segmentStepMac (image : Image) (beyond : UInt64 → UInt8) (eh : Ehdr) (sites : List UInt64)
    (s : Bool × Patches) (i : Nat) : Except Stop (Bool × Patches) := do
  let ph ← image.phdr eh i
  let tls := s.1 || ph.type == ptTls && ph.memsz != 0
  let p := s.2
  if ph.type ≠ ptLoad ∨ ph.vaddr = 0 then return (tls, p)
  let pa := Range.alignExpand ⟨ph.vaddr, ph.memsz⟩
  if pa.size = 0 then return (tls, p)
  let b := (p.block.mmapFixed pa .rw false false).2
  let bytes ← image.copy ph.offset ph.filesz
  let b := if ph.filesz ≠ 0 then (b.copyFromExternal bytes ph.vaddr).2 else b
  let p := (if ph.flags &&& pfX ≠ 0 then sites else []).foldl (patchSite image beyond ph)
    { p with block := b }
  return (tls, { p with block := (p.block.mprotect pa (segmentProt ph.flags)).2 })

/-- What an Intel Mac cannot run, said once the segments are loaded. -/
def refuseTls (tls : Bool) (listed : Option FsSites) (p : Patches) : Patches :=
  if tls ∧ p.refusal = "" then
    match listed with
    | none => { p with refusal := "the core has thread-local variables and was built before an " ++
        "Intel Mac could run them: it needs building again with a newer miniBox guest toolchain" }
    | some l =>
      let patched := UInt64.ofNat (p.looked.countP (·.2))
      let sites := UInt64.ofNat l.sites.length
      if l.other ≠ 0 then
        { p with refusal := "the core reaches its thread-local variables in " ++
            toString l.other.toNat ++ " places an Intel Mac cannot run (an %fs-relative " ++
            "access other than loading the thread pointer): it needs building with " ++
            "-mno-tls-direct-seg-refs" }
      else if patched ≠ sites then
        { p with refusal := toString (sites - patched).toNat ++ " of the core's listed " ++
            "thread-pointer loads are outside its code: it cannot run on an Intel Mac" }
      else p
  else p

/-- `mb_elf_load` on an Intel Mac. -/
def loadMac (image : Image) (beyond : UInt64 → UInt8) (layout : Layout) (b : Block) :
    Except Stop (Option Loaded × Patches) := do
  if image.bytes.length < Ehdr.size then return (none, ⟨b, [], ""⟩)
  let eh ← image.ehdr
  if ¬ isElf64 eh then return (none, ⟨b, [], ""⟩)
  let shstr ← image.shdr eh eh.shstrndx.toNat
  let found ← (List.range eh.shnum.toNat).foldlM (fun s i => sectionStep image eh shstr i s) {}
  let listed ← (List.range eh.shnum.toNat).foldlM (fun s i => fsStep image eh shstr i s) none
  let syms ← symbols image eh found.symtab
  match markInvis found.sections b with
  | none => return (none, ⟨b, [], ""⟩)
  | some b =>
    let b := (b.markInvisible layout.invis).2
    let (tls, p) ← (List.range eh.phnum.toNat).foldlM
      (segmentStepMac image beyond eh (listed.elim [] FsSites.sites)) (false, ⟨b, [], ""⟩)
    let p := refuseTls tls listed p
    if syms.info.start ≠ 0 ∧ syms.info.size ≠ UInt64.ofNat (encodeLayout layout).length then
      return (none, p)
    let b := if syms.info.start ≠ 0 then
        (p.block.copyFromExternal (encodeLayout layout) syms.info.start).2
      else p.block
    let b := mapStack layout.altThread (mapStack layout.mainThread b)
    return (some ⟨found.sections, syms.exports, eh.entry, Sha256.digest [image.bytes], tls⟩,
      { p with block := b })

/-! ## What is read -/

/-- What the loops over the sections find. -/
structure Parsed (image : Image) (eh : Ehdr) (found : Sections)
    (listed : Option FsSites) : Prop where
  header : image.ehdr = .ok eh
  sections : ∃ shstr, image.shdr eh eh.shstrndx.toNat = .ok shstr ∧
    (List.range eh.shnum.toNat).foldlM (fun s i => sectionStep image eh shstr i s) {} = .ok found ∧
    (List.range eh.shnum.toNat).foldlM (fun s i => fsStep image eh shstr i s) none = .ok listed

/-- The segments that are patched. -/
def Image.code (image : Image) (eh : Ehdr) : List Phdr :=
  (List.range eh.phnum.toNat).flatMap fun i => ((image.phdr eh i).toOption.filter patches).toList

/-- The nine bytes at an address are file bytes of an executable segment. -/
def Image.InCode (image : Image) (at_ : UInt64) : Prop :=
  ∃ eh i ph, image.ehdr = .ok eh ∧ i < eh.phnum.toNat ∧ image.phdr eh i = .ok ph ∧
    ph.type = ptLoad ∧ ph.flags &&& pfX ≠ 0 ∧ ph.vaddr.toNat ≤ at_.toNat ∧
    at_.toNat + 9 ≤ ph.vaddr.toNat + ph.filesz.toNat

/-- If the nine bytes at an address above a segment's run over the end of the address space,
their end lies above the segment's. -/
def Phdr.Clear (ph : Phdr) (at_ : UInt64) : Prop :=
  ph.vaddr ≤ at_ → 2 ^ 64 ≤ at_.toNat + 9 →
    2 ^ 64 + ph.vaddr.toNat + ph.filesz.toNat < at_.toNat + 9

section Mac

variable {image : Image} {eh : Ehdr} {names : Shdr} {beyond : UInt64 → UInt8} {i : Nat} {ph : Phdr}
  {at_ : UInt64}

theorem quad_eq_ok {offset y : UInt64} : image.quad offset = .ok y ↔
    offset.toNat + 8 ≤ image.bytes.length ∧ y = u64At image.bytes offset.toNat := by
  unfold Image.quad Image.read
  split
  · simp_all [eq_comm]
  · simp_all

theorem Checked.fsStep (checked : Checked image eh names) (inside : i < eh.shnum.toNat)
    (s : Option FsSites) : ∃ s', fsStep image eh names i s = .ok s' := by
  obtain ⟨sh, read, here⟩ := checked.sections i inside
  obtain ⟨name, text⟩ := checked.ended.text here.name
  unfold Elf.fsStep
  simp only [read, text, ok_bind]
  split
  · exact ⟨_, rfl⟩
  · rename_i listed
    simp only [not_or, not_not] at listed
    obtain ⟨-, long, -, fits⟩ := listed
    have fits := within_iff.mp fits
    have fewer := image.fits
    have head : (16 : UInt64) ≤ sh.size := UInt64.not_lt.mp long
    have long : 16 ≤ sh.size.toNat := UInt64.le_iff_toNat_le.mp head
    have second : (sh.offset + 8).toNat = sh.offset.toNat + 8 := by
      rw [UInt64.toNat_add]
      show (_ + 8) % _ = _
      omega
    have third : (sh.offset + 16).toNat = sh.offset.toNat + 16 := by
      rw [UInt64.toNat_add]
      show (_ + 16) % _ = _
      omega
    have count : ((sh.size - 16) / 8).toNat = (sh.size.toNat - 16) / 8 := by
      rw [UInt64.toNat_div, UInt64.toNat_sub_of_le _ _ head]
      rfl
    have all : (List.range ((sh.size - 16) / 8).toNat).mapM
        (fun k => image.quad (sh.offset + 16 + UInt64.ofNat k * 8)) = .ok _ :=
      (mapM_eq_ok fun k y => quad_eq_ok).mpr ⟨fun k member => by
        have less := List.mem_range.mp member
        refine (entry_toNat (n := ((sh.size - 16) / 8).toNat) less (by decide) ?_).2
        rw [third, count]
        show _ + _ / 8 * 8 ≤ _
        omega, rfl⟩
    rw [quad_eq_ok.mpr ⟨by omega, rfl⟩, ok_bind]
    split
    · exact ⟨_, rfl⟩
    · rw [quad_eq_ok.mpr ⟨by omega, rfl⟩, ok_bind, all]
      exact ⟨_, rfl⟩

theorem patchSite_looked (ph : Phdr) (p : Patches) (at_ : UInt64) :
    (patchSite image beyond ph p at_).looked.map Prod.fst =
      p.looked.map Prod.fst ++ [at_].filter (reaches ph) := by
  unfold patchSite
  cases hit : reaches ph at_ with
  | false => simp [hit]
  | true =>
    simp only [Bool.not_true, Bool.false_eq_true, if_false]
    split <;> simp [hit]

theorem patchSites_looked (ph : Phdr) : ∀ (sites : List UInt64) (p : Patches),
    (sites.foldl (patchSite image beyond ph) p).looked.map Prod.fst =
      p.looked.map Prod.fst ++ sites.filter (reaches ph)
  | [], p => by simp
  | at_ :: sites, p => by
    rw [List.foldl_cons, patchSites_looked ph sites, patchSite_looked, List.append_assoc,
      ← List.filter_append]
    rfl

theorem refuseTls_looked (tls : Bool) (listed : Option FsSites) (p : Patches) :
    (refuseTls tls listed p).looked = p.looked := by
  unfold refuseTls
  split
  · split
    · rfl
    · dsimp only
      split_ifs <;> rfl
  · rfl

theorem mem_code : ph ∈ image.code eh ↔
    ∃ i < eh.phnum.toNat, image.phdr eh i = .ok ph ∧ patches ph = true := by
  simp only [Image.code, List.mem_flatMap, List.mem_range]
  refine exists_congr fun i => and_congr_right fun _ => ?_
  cases image.phdr eh i with
  | error e => simp [Except.toOption]
  | ok ph' =>
    simp only [Except.toOption, Option.mem_toList, Option.filter_eq_some_iff, Option.some.injEq,
      Except.ok.injEq]

/-- The addresses that are read for the segments: those of the list that reach into one. -/
theorem segmentsMac_looked {sites : List UInt64} {b : Block} {s : Bool × Patches}
    (loop : (List.range eh.phnum.toNat).foldlM (segmentStepMac image beyond eh sites)
      (false, ⟨b, [], ""⟩) = .ok s) :
    s.2.looked.map Prod.fst = (image.code eh).flatMap fun ph => sites.filter (reaches ph) := by
  let looks (i : Nat) : List UInt64 :=
    ((image.phdr eh i).toOption.filter patches).toList.flatMap fun ph => sites.filter (reaches ph)
  have turns := foldlM_invariant (fun done s => s.2.looked.map Prod.fst = done.flatMap looks)
    (fun {done i s s'} known step => ?_) (List.flatMap_nil : [].flatMap looks = []).symm loop
  · rw [Image.code, List.flatMap_assoc]
    exact turns
  · rw [List.flatMap_append, ← known, List.flatMap_singleton]
    obtain ⟨ph, read, step⟩ := bind_eq_ok.mp step
    have here : looks i = if patches ph then sites.filter (reaches ph) else [] := by
      show ((image.phdr eh i).toOption.filter patches).toList.flatMap _ = _
      rw [read]
      cases is : patches ph <;> simp [Except.toOption, Option.filter, is]
    rw [here, patches]
    dsimp only at step
    split at step
    · rename_i other
      cases step
      rw [if_neg (by simp_all; grind), List.append_nil]
    split at step
    · rename_i empty
      cases step
      rw [if_neg (by simp [empty]), List.append_nil]
    · rename_i loads pages
      obtain ⟨bytes, -, step⟩ := bind_eq_ok.mp step
      cases step
      dsimp only
      rw [patchSites_looked]
      obtain ⟨load, start⟩ := not_or.mp loads
      by_cases x : ph.flags &&& pfX = 0 <;> simp_all

/-- Where the sum of a site's end is taken, an address the test lets through lies in the segment
unless its bytes run over the end of the address space. -/
theorem reaches_iff (segment : CheckedSegment image ph) : reaches ph at_ = true ↔ ph.vaddr ≤ at_ ∧
      (at_.toNat + 9) % 2 ^ 64 ≤ ph.vaddr.toNat + ph.filesz.toNat := by
  have whole := segment.whole
  have wraps := segment.wraps
  have finish : (ph.vaddr + ph.filesz).toNat = ph.vaddr.toNat + ph.filesz.toNat := by
    rw [UInt64.toNat_add]
    omega
  simp only [reaches, Bool.not_eq_true', Bool.or_eq_false_iff, decide_eq_false_iff_not,
    UInt64.not_lt, UInt64.le_iff_toNat_le, finish]
  rw [UInt64.toNat_add]
  rfl

theorem Checked.segment (checked : Checked image eh names) (inside : i < eh.phnum.toNat)
    (read : image.phdr eh i = .ok ph) (load : ph.type = ptLoad) :
    CheckedSegment image ph := by
  obtain ⟨ph', again, segment⟩ := checked.phdrs i inside
  rw [read] at again
  cases again
  exact segment load

theorem patches_spec (is : patches ph = true) : ph.type = ptLoad ∧ ph.flags &&& pfX ≠ 0 := by
  simp only [patches, Bool.and_eq_true, beq_iff_eq, bne_iff_ne] at is
  exact ⟨is.1.1.1, is.2⟩

theorem Checked.not_in_code (checked : Checked image eh names) (wraps : 2 ^ 64 ≤ at_.toNat + 9) :
    ¬ image.InCode at_ := by
  rintro ⟨eh', i, ph, header, inside, read, load, -, -, finish⟩
  rw [checked.header] at header
  cases header
  have whole := (checked.segment inside read load).whole
  have room := (checked.segment inside read load).wraps
  omega

theorem Checked.in_code_iff (checked : Checked image eh names) (sites : List UInt64) :
    (∀ at_ ∈ (image.code eh).flatMap fun ph => sites.filter (reaches ph), image.InCode at_) ↔
      ∀ ph ∈ image.code eh, ∀ at_ ∈ sites, ph.Clear at_ := by
  simp only [List.mem_flatMap, List.mem_filter]
  constructor
  · intro all ph member at_ listed above wraps
    obtain ⟨i, inside, read, is⟩ := mem_code.mp member
    have segment := checked.segment inside read (patches_spec is).1
    by_contra below
    have small := at_.toNat_lt
    refine checked.not_in_code wraps (all at_ ⟨ph, member, listed, ?_⟩)
    exact (reaches_iff segment).mpr ⟨above, by omega⟩
  · rintro clear at_ ⟨ph, member, listed, reached⟩
    obtain ⟨i, inside, read, is⟩ := mem_code.mp member
    obtain ⟨load, x⟩ := patches_spec is
    have segment := checked.segment inside read load
    obtain ⟨above, finish⟩ := (reaches_iff segment).mp reached
    refine ⟨eh, i, ph, checked.header, inside, read, load, x, UInt64.le_iff_toNat_le.mp above, ?_⟩
    have fits := clear ph member at_ listed above
    have small := at_.toNat_lt
    omega

theorem Checked.segmentStepMac (checked : Checked image eh names) (inside : i < eh.phnum.toNat)
    (sites : List UInt64) (s : Bool × Patches) :
    ∃ s', segmentStepMac image beyond eh sites s i = .ok s' := by
  obtain ⟨ph, read, segment⟩ := checked.phdrs i inside
  unfold Elf.segmentStepMac
  rw [read, ok_bind]
  dsimp only
  split
  · exact ⟨_, rfl⟩
  · rename_i loads
    obtain ⟨load, -⟩ := not_or.mp loads
    obtain ⟨bytes, copied⟩ := (segment (not_not.mp load)).copy
    split
    · exact ⟨_, rfl⟩
    · rw [copied]
      exact ⟨_, rfl⟩

end Mac

/-- Of an image that is accepted, `mb_elf_load` reads and changes listed addresses inside code
just if it refuses the image's `.invis` before any segment, or no listed address above the start
of an executable segment has bytes that run over the end of the address space and end below the
segment's end. -/
theorem loadMac_in_code {image : Image} (accepted : check false image = .ok ())
    (beyond : UInt64 → UInt8) (layout : Layout) (b : Block) : ∃ eh found listed r,
      Parsed image eh found listed ∧ loadMac image beyond layout b = .ok r ∧
        ((∀ x ∈ r.2.looked, image.InCode x.1) ↔ markInvis found.sections b = none ∨
          ∀ ph ∈ image.code eh, ∀ at_ ∈ listed.elim [] FsSites.sites, ph.Clear at_) := by
  obtain ⟨eh, names, checked⟩ := check_eq_ok accepted
  have long := checked.long
  obtain ⟨found, syms, sections, read⟩ := checked.symbols
  obtain ⟨listed, fs⟩ := foldlM_ok (List.range eh.shnum.toNat)
    (f := fun s i => fsStep image eh names i s) none fun i member =>
      checked.fsStep (List.mem_range.mp member)
  have parsed : Parsed image eh found listed :=
    ⟨checked.header, names, checked.nameTable, sections, fs⟩
  have loaded : ∃ r, loadMac image beyond layout b = .ok r ∧ (markInvis found.sections b = none ∧
      r.2.looked = [] ∨ markInvis found.sections b ≠ none ∧ r.2.looked.map Prod.fst =
        (image.code eh).flatMap fun ph => (listed.elim [] FsSites.sites).filter (reaches ph)) := by
    unfold loadMac
    rw [if_neg (by omega), checked.header, ok_bind, if_neg (not_not.mpr checked.elf),
      checked.nameTable, ok_bind, sections, ok_bind, fs, ok_bind, read, ok_bind]
    split
    · exact ⟨_, rfl, .inl ⟨‹_›, rfl⟩⟩
    · rename_i b' marked
      obtain ⟨s, segments⟩ := foldlM_ok (List.range eh.phnum.toNat)
        (f := segmentStepMac image beyond eh (listed.elim [] FsSites.sites))
        (false, ⟨(b'.markInvisible layout.invis).2, [], ""⟩) fun i member =>
          checked.segmentStepMac (List.mem_range.mp member) _
      have looked := segmentsMac_looked segments
      rw [← refuseTls_looked s.1 listed] at looked
      dsimp only
      rw [segments, ok_bind]
      split_ifs <;> exact ⟨_, rfl, .inr ⟨by simp [marked], looked⟩⟩
  obtain ⟨r, run, outcome⟩ := loaded
  refine ⟨eh, found, listed, r, parsed, run, ?_⟩
  rcases outcome with ⟨refused, none_⟩ | ⟨marked, looked⟩
  · simp [refused, none_]
  · rw [or_iff_right marked, ← checked.in_code_iff, ← looked, List.forall_mem_map]

/-- An image of one executable segment, its first 64 bytes, that lists one address. -/
def sitesImage (at_ : UInt64) : Image where
  bytes := { smallHeader with shnum := 2 }.encode ++
    Phdr.encode ⟨ptLoad, pfX, 0, 0x36f00000000, 0x36f00000000, 64, 64, 0x1000⟩ ++
    Shdr.encode ⟨0, 3, 0, 0, 248, 15, 0, 0, 1, 0⟩ ++
    Shdr.encode ⟨1, 1, 0, 0, 263, 24, 0, 0, 1, 0⟩ ++
    0 :: wbxFsSites ++ [0] ++ le 8 1 ++ le 8 0 ++ le 8 at_.toNat
  fits := by simp [Ehdr.encode, Phdr.encode, Shdr.encode, smallHeader, magic, wbxFsSites]

/-- A layout of no areas. -/
def noLayout : Layout := ⟨⟨0, 0⟩, ⟨0, 0⟩, ⟨0, 0⟩, ⟨0, 0⟩, ⟨0, 0⟩, ⟨0, 0⟩, ⟨0, 0⟩, ⟨0, 0⟩⟩

def onePageBlock : Block := (Block.new ⟨0x36f00000000, 0x1000⟩ 0).get (by decide +kernel)

theorem loadMac_looked {image : Image} {looked : List (UInt64 × Bool)}
    (run : (loadMac image (fun _ => 0) noLayout onePageBlock).toOption.map (·.2.looked) =
      some looked) :
    ∃ r, loadMac image (fun _ => 0) noLayout onePageBlock = .ok r ∧ r.2.looked = looked := by
  obtain ⟨r, run, only⟩ := Option.map_eq_some_iff.mp run
  refine ⟨r, ?_, only⟩
  cases answer : loadMac image (fun _ => 0) noLayout onePageBlock with
  | error e =>
    rw [answer] at run
    cases run
  | ok r' =>
    rw [answer] at run
    cases run
    rfl

/-- The one address inside the code is read, and no other. -/
theorem sitesImage_in_code : check false (sitesImage 0x36f00000010) = .ok () ∧
    ∃ r, loadMac (sitesImage 0x36f00000010) (fun _ => 0) noLayout onePageBlock = .ok r ∧
      r.2.looked = [(0x36f00000010, false)] ∧
      ∀ x ∈ r.2.looked, (sitesImage 0x36f00000010).InCode x.1 := by
  have accepted : check false (sitesImage 0x36f00000010) = .ok () := by decide +kernel
  have header : (sitesImage 0x36f00000010).ehdr = .ok { smallHeader with shnum := 2 } := by
    decide +kernel
  have names : (sitesImage 0x36f00000010).shdr { smallHeader with shnum := 2 } 0 =
      .ok ⟨0, 3, 0, 0, 248, 15, 0, 0, 1, 0⟩ := by decide +kernel
  have found : (List.range 2).foldlM (fun s i => fsStep (sitesImage 0x36f00000010)
      { smallHeader with shnum := 2 } ⟨0, 3, 0, 0, 248, 15, 0, 0, 1, 0⟩ i s) none =
        .ok (some ⟨0, [0x36f00000010]⟩) := by decide +kernel
  obtain ⟨r, run, looked⟩ := @loadMac_looked (sitesImage 0x36f00000010) [(0x36f00000010, false)]
    (by decide +kernel)
  obtain ⟨eh, found', listed, r', parsed, run', inside⟩ :=
    loadMac_in_code accepted (fun _ => 0) noLayout onePageBlock
  obtain rfl : r = r' := Except.ok.inj (run.symm.trans run')
  obtain rfl : { smallHeader with shnum := 2 } = eh :=
    Except.ok.inj (header.symm.trans parsed.header)
  obtain ⟨shstr, names', -, listed'⟩ := parsed.sections
  obtain rfl := Except.ok.inj (names.symm.trans names')
  obtain rfl := Except.ok.inj (found.symm.trans listed')
  refine ⟨accepted, r, run, looked, inside.mpr (.inr fun ph _ at_ member _ wraps => ?_)⟩
  -- the nine bytes of the one listed address end far below the end of the address space
  obtain rfl := List.mem_singleton.mp member
  exact absurd wraps (by decide)

/-- The address eight bytes below the end of the address space is taken for one inside code. -/
theorem sitesImage_out_of_code : check false (sitesImage 0xfffffffffffffff8) = .ok () ∧
    ∃ layout b r, loadMac (sitesImage 0xfffffffffffffff8) (fun _ => 0) layout b = .ok r ∧
      ∃ x ∈ r.2.looked, ¬ (sitesImage 0xfffffffffffffff8).InCode x.1 := by
  have accepted : check false (sitesImage 0xfffffffffffffff8) = .ok () := by decide +kernel
  obtain ⟨eh, names, checked⟩ := check_eq_ok accepted
  obtain ⟨r, run, only⟩ := @loadMac_looked (sitesImage 0xfffffffffffffff8)
    [(0xfffffffffffffff8, false)] (by decide +kernel)
  exact ⟨accepted, noLayout, onePageBlock, r, run, (0xfffffffffffffff8, false), by simp [only],
    checked.not_in_code (by decide)⟩

end MiniBox.Elf
