import MiniBox.Elf.Load
import MiniBox.Lib.Stops

/-!
# A checked image is read inside

`Checked` is what `mb_elf_check` finds of an image it accepts, in plain numbers.  From it
every read of `mb_elf_span` and `mb_elf_load` lies in the image.
-/

namespace MiniBox.Elf

open Lib

section Reads

variable {image : Image}

theorem require_eq_ok {ok : Bool} {why : Refusal} : require ok why = .ok () ↔ ok = true := by
  unfold require
  cases ok <;> simp

theorem Image.len_toNat (image : Image) : image.len.toNat = image.bytes.length :=
  UInt64.toNat_ofNat_of_lt' image.fits

theorem within_iff {off size : UInt64} :
    within off size image.len = true ↔ off.toNat + size.toNat ≤ image.bytes.length := by
  have len := image.len_toNat
  simp only [within, Bool.and_eq_true, decide_eq_true_eq, UInt64.le_iff_toNat_le]
  constructor
  · rintro ⟨before, rest⟩
    rw [UInt64.toNat_sub_of_le _ _ (UInt64.le_iff_toNat_le.mpr before)] at rest
    omega
  · intro sum
    have before : off.toNat ≤ image.len.toNat := by omega
    rw [UInt64.toNat_sub_of_le _ _ (UInt64.le_iff_toNat_le.mpr before)]
    omega

theorem read_ok {α : Type} {offset : UInt64} {size : Nat} (value : Bytes → Nat → α)
    (inside : offset.toNat + size ≤ image.bytes.length) :
    image.read offset size value = .ok (value image.bytes offset.toNat) := if_pos inside

/-- The place of an entry in a table that lies in the image. -/
theorem entry_toNat {base : UInt64} {i n size : Nat} {width : UInt64} (count : i < n)
    (wide : size ≤ width.toNat) (inside : base.toNat + n * width.toNat ≤ image.bytes.length) :
    (base + UInt64.ofNat i * width).toNat = base.toNat + i * width.toNat ∧
      (base + UInt64.ofNat i * width).toNat + size ≤ image.bytes.length := by
  have fits := image.fits
  have next : (i + 1) * width.toNat ≤ n * width.toNat := Nat.mul_le_mul_right _ count
  rw [Nat.add_one_mul] at next
  have small : i * width.toNat < 2 ^ 64 := by omega
  have index : UInt64.ofNat i * width = UInt64.ofNat (i * width.toNat) := by
    rw [UInt64.ofNat_mul, UInt64.ofNat_toNat]
  have product : (UInt64.ofNat i * width).toNat = i * width.toNat := by
    rw [index]
    exact UInt64.toNat_ofNat_of_lt' small
  have sum : (base + UInt64.ofNat i * width).toNat = base.toNat + i * width.toNat := by
    rw [UInt64.toNat_add, product]
    omega
  exact ⟨sum, by omega⟩

end Reads

/-! ## What the check finds -/

/-- A table of strings that ends in the image. -/
structure Ends (image : Image) (s : Shdr) : Prop where
  inside : s.offset.toNat + s.size.toNat ≤ image.bytes.length
  some_ : 0 < s.size.toNat
  last : image.bytes[s.offset.toNat + s.size.toNat - 1]? = some 0

structure CheckedSection (image : Image) (eh : Ehdr) (names s : Shdr) : Prop where
  inside : s.type ≠ shtNobits → s.offset.toNat + s.size.toNat ≤ image.bytes.length
  name : s.name.toNat < names.size.toNat
  symbols : s.type = shtSymtab → ∃ strings, image.shdr eh s.link.toNat = .ok strings ∧
    Ends image strings ∧ ∀ k < s.size.toNat / Sym.bytes, ∃ sym, image.sym s k = .ok sym ∧
      sym.name.toNat < strings.size.toNat

structure CheckedSegment (image : Image) (ph : Phdr) : Prop where
  inside : ph.offset.toNat + ph.filesz.toNat ≤ image.bytes.length
  whole : ph.filesz.toNat ≤ ph.memsz.toNat
  wraps : ph.vaddr.toNat + ph.memsz.toNat < 2 ^ 64

structure Checked (image : Image) (eh : Ehdr) (names : Shdr) : Prop where
  header : image.ehdr = .ok eh
  long : Ehdr.size ≤ image.bytes.length
  elf : isElf64 eh = true
  phdrs : ∀ i < eh.phnum.toNat, ∃ ph, image.phdr eh i = .ok ph ∧
    (ph.type = ptLoad → CheckedSegment image ph)
  nameTable : image.shdr eh eh.shstrndx.toNat = .ok names
  ended : Ends image names
  sections : ∀ i < eh.shnum.toNat, ∃ s, image.shdr eh i = .ok s ∧ CheckedSection image eh names s

section Check

variable {image : Image} {eh : Ehdr} {names : Shdr}

/-- The place of the last byte of a table. -/
theorem last_toNat {s : Shdr} (inside : s.offset.toNat + s.size.toNat ≤ image.bytes.length)
    (pos : 0 < s.size.toNat) :
    (s.offset + s.size - 1).toNat = s.offset.toNat + s.size.toNat - 1 := by
  have fits := image.fits
  have sum : (s.offset + s.size).toNat = s.offset.toNat + s.size.toNat := by
    rw [UInt64.toNat_add]
    omega
  have one : (1 : UInt64) ≤ s.offset + s.size := by
    rw [UInt64.le_iff_toNat_le, sum]
    show 1 ≤ _
    omega
  rw [UInt64.toNat_sub_of_le _ _ one, sum]
  rfl

theorem stringsEnd_eq_true {s : Shdr} (inside : s.type ≠ shtNobits →
      s.offset.toNat + s.size.toNat ≤ image.bytes.length) (ends : stringsEnd image s = .ok true) :
    Ends image s := by
  unfold stringsEnd at ends
  split at ends
  · cases ends
  · rename_i bytes
    obtain ⟨type, size⟩ := not_or.mp bytes
    have within := inside type
    have pos : 0 < s.size.toNat := Nat.pos_of_ne_zero fun zero =>
      size (UInt64.toNat_inj.mp zero)
    have place := last_toNat within pos
    obtain ⟨last, read, zero⟩ := bind_eq_ok.mp ends
    rw [Image.byte, read_ok _ (by omega), place] at read
    cases read
    refine ⟨within, pos, ?_⟩
    have here : s.offset.toNat + s.size.toNat - 1 < image.bytes.length := by omega
    rw [List.getElem?_eq_getElem here] at zero ⊢
    simpa [pure, Except.pure] using zero

theorem checkSection_eq_ok {i : Nat} (ok : checkSection image eh i = .ok ()) :
    ∃ s, image.shdr eh i = .ok s ∧
      (s.type ≠ shtNobits → s.offset.toNat + s.size.toNat ≤ image.bytes.length) ∧
      (s.type = shtSymtab → s.link.toNat < eh.shnum.toNat) := by
  obtain ⟨s, read, ok⟩ := bind_eq_ok.mp ok
  obtain ⟨⟨⟩, inside, ok⟩ := bind_eq_ok.mp ok
  rw [require_eq_ok] at inside ok
  refine ⟨s, read, fun bits => ?_, fun symtab => ?_⟩
  · have place : within s.offset s.size image.len = true := by
      simpa [bits] using inside
    exact within_iff.mp place
  · have less : s.link < eh.shnum.toUInt32 := by simpa [symtab] using ok
    exact UInt32.lt_iff_toNat_lt.mp less

theorem checkSegment_eq_ok {i : Nat} (ok : checkSegment image eh i = .ok ()) :
    ∃ ph, image.phdr eh i = .ok ph ∧ (ph.type = ptLoad → CheckedSegment image ph) := by
  obtain ⟨ph, read, ok⟩ := bind_eq_ok.mp ok
  refine ⟨ph, read, fun load => ?_⟩
  rw [if_neg (not_not.mpr load)] at ok
  obtain ⟨⟨⟩, inside, ok⟩ := bind_eq_ok.mp ok
  rw [require_eq_ok] at inside ok
  simp only [Bool.and_eq_true, decide_eq_true_eq] at inside ok
  have small := ph.vaddr.toNat_lt
  have small' := ph.memsz.toNat_lt
  refine ⟨within_iff.mp inside.1, UInt64.le_iff_toNat_le.mp inside.2, ?_⟩
  have sum := UInt64.le_iff_toNat_le.mp ok
  rw [UInt64.toNat_add] at sum
  omega

theorem checkNames_eq_ok {i : Nat} {s : Shdr} (read : image.shdr eh i = .ok s)
    (inside : s.type ≠ shtNobits → s.offset.toNat + s.size.toNat ≤ image.bytes.length)
    (linked : s.type = shtSymtab → ∀ strings, image.shdr eh s.link.toNat = .ok strings →
      strings.type ≠ shtNobits → strings.offset.toNat + strings.size.toNat ≤ image.bytes.length)
    (ok : checkNames image eh names i = .ok ()) : CheckedSection image eh names s := by
  unfold checkNames at ok
  rw [read, ok_bind] at ok
  obtain ⟨⟨⟩, name, ok⟩ := bind_eq_ok.mp ok
  rw [require_eq_ok, decide_eq_true_eq, UInt64.lt_iff_toNat_lt, UInt32.toNat_toUInt64] at name
  refine ⟨inside, name, fun symtab => ?_⟩
  rw [if_neg (not_not.mpr symtab)] at ok
  obtain ⟨strings, table, ok⟩ := bind_eq_ok.mp ok
  obtain ⟨ended, ends, ok⟩ := bind_eq_ok.mp ok
  obtain ⟨⟨⟩, terminated, ok⟩ := bind_eq_ok.mp ok
  rw [require_eq_ok] at terminated
  rw [terminated] at ends
  refine ⟨strings, table, stringsEnd_eq_true (linked symtab strings table) ends, fun k less => ?_⟩
  have one := forM_eq_ok.mp ok k (List.mem_range.mpr less)
  obtain ⟨sym, found, below⟩ := bind_eq_ok.mp one
  rw [require_eq_ok, decide_eq_true_eq, UInt64.lt_iff_toNat_lt, UInt32.toNat_toUInt64] at below
  exact ⟨sym, found, below⟩

theorem checkTables_eq_ok (header : image.ehdr = .ok eh) (long : Ehdr.size ≤ image.bytes.length)
    (elf : isElf64 eh = true) (ok : checkTables image eh = .ok names) : Checked image eh names := by
  obtain ⟨-, -, ok⟩ := bind_eq_ok.mp ok
  obtain ⟨-, -, ok⟩ := bind_eq_ok.mp ok
  obtain ⟨-, -, ok⟩ := bind_eq_ok.mp ok
  obtain ⟨⟨⟩, index, ok⟩ := bind_eq_ok.mp ok
  obtain ⟨⟨⟩, places, ok⟩ := bind_eq_ok.mp ok
  obtain ⟨table, nameTable, ok⟩ := bind_eq_ok.mp ok
  obtain ⟨ended, ends, ok⟩ := bind_eq_ok.mp ok
  obtain ⟨⟨⟩, terminated, ok⟩ := bind_eq_ok.mp ok
  obtain ⟨⟨⟩, named, ok⟩ := bind_eq_ok.mp ok
  obtain ⟨⟨⟩, segments, ok⟩ := bind_eq_ok.mp ok
  cases ok
  rw [require_eq_ok] at index terminated
  rw [terminated] at ends
  rw [forM_eq_ok] at places named segments
  have less := UInt16.lt_iff_toNat_lt.mp (decide_eq_true_eq.mp index)
  -- what the first loop knows of any section that is read
  have place : ∀ j < eh.shnum.toNat, ∀ s, image.shdr eh j = .ok s →
      (s.type ≠ shtNobits → s.offset.toNat + s.size.toNat ≤ image.bytes.length) ∧
      (s.type = shtSymtab → s.link.toNat < eh.shnum.toNat) := by
    intro j inside s read
    obtain ⟨s', again, both⟩ := checkSection_eq_ok (places j (List.mem_range.mpr inside))
    rw [read] at again
    cases again
    exact both
  refine ⟨header, long, elf, fun i inside => checkSegment_eq_ok
    (segments i (List.mem_range.mpr inside)),
    nameTable, stringsEnd_eq_true (place _ less _ nameTable).1 ends, fun i inside => ?_⟩
  obtain ⟨s, read, here, linked⟩ := checkSection_eq_ok (places i (List.mem_range.mpr inside))
  refine ⟨s, read, checkNames_eq_ok read here (fun symtab strings table => ?_)
    (named i (List.mem_range.mpr inside))⟩
  exact (place _ (linked symtab) strings table).1

/-- What is known of an image that is accepted, on any host. -/
theorem check_eq_ok {aarch64 : Bool} (ok : check aarch64 image = .ok ()) :
    ∃ eh names, Checked image eh names := by
  obtain ⟨eh, head, ok⟩ := bind_eq_ok.mp ok
  obtain ⟨names, tables, -⟩ := bind_eq_ok.mp ok
  obtain ⟨⟨⟩, long, head⟩ := bind_eq_ok.mp head
  obtain ⟨eh', header, head⟩ := bind_eq_ok.mp head
  obtain ⟨⟨⟩, elf, head⟩ := bind_eq_ok.mp head
  cases head
  rw [require_eq_ok] at long elf
  exact ⟨eh, names, checkTables_eq_ok header (decide_eq_true_eq.mp long) elf tables⟩

end Check

/-! ## What the loader reads -/

section Load

variable {image : Image} {eh : Ehdr} {names : Shdr}

/-- A name in a table that ends is read inside it. -/
theorem Ends.text {s : Shdr} (ends : Ends image s) {name : UInt32}
    (inside : name.toNat < s.size.toNat) :
    ∃ text, image.text (s.offset + name.toUInt64) = .ok text := by
  have fits := image.fits
  have within := ends.inside
  have place : (s.offset + name.toUInt64).toNat = s.offset.toNat + name.toNat := by
    rw [UInt64.toNat_add, UInt32.toNat_toUInt64]
    omega
  have found : (textAt image.bytes (s.offset + name.toUInt64).toNat).isSome = true := by
    rw [place]
    exact textAt_isSome (by omega) ends.last
  obtain ⟨text, here⟩ := Option.isSome_iff_exists.mp found
  exact ⟨text, by rw [Image.text, here]⟩

theorem Checked.span (checked : Checked image eh names) : ∃ r, span image = .ok r := by
  obtain ⟨s, loop⟩ := foldlM_ok (List.range eh.phnum.toNat) (f := fun s i => spanStep image eh i s)
    (0xffffffffffffffff, 0) fun i member s => by
      obtain ⟨ph, read, -⟩ := checked.phdrs i (List.mem_range.mp member)
      rw [spanStep, read, ok_bind]
      split
      · exact ⟨_, rfl⟩
      · exact ⟨_, rfl⟩
  exact ⟨_, by rw [Elf.span, checked.header, ok_bind, loop, ok_bind]; rfl⟩

theorem Checked.sectionStep (checked : Checked image eh names) {i : Nat}
    (inside : i < eh.shnum.toNat)
    (s : Sections) : ∃ s', sectionStep image eh names i s = .ok s' := by
  obtain ⟨sh, read, here⟩ := checked.sections i inside
  obtain ⟨name, text⟩ := checked.ended.text here.name
  unfold Elf.sectionStep
  simp only [read, text, ok_bind]
  split_ifs <;> exact ⟨_, rfl⟩

/-- What the loop over the sections keeps of the symbol table is a section that was checked. -/
theorem Checked.sections_symtab (checked : Checked image eh names) : ∀ {is : List Nat}
    {s s' : Sections},
    (∀ i ∈ is, i < eh.shnum.toNat) →
    (∀ symtab link, s.symtab = some (symtab, link) → link = symtab.link.toNat ∧
      symtab.type = shtSymtab ∧ CheckedSection image eh names symtab) →
    is.foldlM (fun s i => Elf.sectionStep image eh names i s) s = .ok s' →
    ∀ symtab link, s'.symtab = some (symtab, link) → link = symtab.link.toNat ∧
      symtab.type = shtSymtab ∧ CheckedSection image eh names symtab
  | [], s, s', _, known, loop => by
    cases loop
    exact known
  | i :: is, s, s', all, known, loop => by
    rw [List.foldlM_cons] at loop
    obtain ⟨s₁, first, rest⟩ := bind_eq_ok.mp loop
    refine Checked.sections_symtab checked (fun j member => all j (by simp [member])) ?_ rest
    obtain ⟨sh, read, here⟩ := checked.sections i (all i (by simp))
    obtain ⟨name, text⟩ := checked.ended.text here.name
    unfold Elf.sectionStep at first
    simp only [read, text, ok_bind] at first
    intro symtab link kept
    by_cases table : sh.type = shtSymtab
    · split_ifs at first <;> cases first <;> cases kept <;> exact ⟨rfl, table, here⟩
    · split_ifs at first <;> cases first <;> exact known symtab link kept

theorem symbols_ok {found : Option (Shdr × Nat)}
    (known : ∀ symtab link, found = some (symtab, link) → link = symtab.link.toNat ∧
      symtab.type = shtSymtab ∧ CheckedSection image eh names symtab) :
    ∃ r, symbols image eh found = .ok r := by
  cases found with
  | none => exact ⟨_, rfl⟩
  | some found =>
    obtain ⟨symtab, link⟩ := found
    obtain ⟨rfl, type, here⟩ := known symtab link rfl
    obtain ⟨strings, table, ends, names⟩ := here.symbols type
    obtain ⟨r, loop⟩ := foldlM_ok (List.range (symtab.size.toNat / Sym.bytes))
      (f := fun s i => symbolStep image symtab strings i s) {} fun k member s => by
        obtain ⟨sym, read, below⟩ := names k (List.mem_range.mp member)
        obtain ⟨name, text⟩ := ends.text below
        simp only [symbolStep, read, text, ok_bind]
        split_ifs <;> exact ⟨_, rfl⟩
    exact ⟨r, by rw [symbols, table, ok_bind, loop]⟩

theorem CheckedSegment.copy {ph : Phdr} (checked : CheckedSegment image ph) :
    ∃ bytes, image.copy ph.offset ph.filesz = .ok bytes := by
  unfold Image.copy
  split
  · exact ⟨_, rfl⟩
  · exact ⟨_, read_ok _ checked.inside⟩

theorem Checked.segmentStep (checked : Checked image eh names) {i : Nat}
    (inside : i < eh.phnum.toNat)
    (s : Bool × Block) : ∃ s', segmentStep image eh i s = .ok s' := by
  obtain ⟨ph, read, segment⟩ := checked.phdrs i inside
  unfold Elf.segmentStep
  rw [read, ok_bind]
  dsimp only
  split
  · exact ⟨_, rfl⟩
  · rename_i loads
    obtain ⟨load, -⟩ := not_or.mp loads
    obtain ⟨bytes, copied⟩ := (segment (not_not.mp load)).copy
    split
    · exact ⟨_, rfl⟩
    · rw [copied]
      exact ⟨_, rfl⟩

/-- The loops over the sections and the symbols. -/
theorem Checked.symbols (checked : Checked image eh names) : ∃ found syms,
    (List.range eh.shnum.toNat).foldlM (fun s i => Elf.sectionStep image eh names i s) {} =
    .ok found ∧
      Elf.symbols image eh found.symtab = .ok syms := by
  obtain ⟨found, sections⟩ := foldlM_ok (List.range eh.shnum.toNat)
    (f := fun s i => Elf.sectionStep image eh names i s) {} fun i member =>
      checked.sectionStep (List.mem_range.mp member)
  obtain ⟨syms, read⟩ := symbols_ok (checked.sections_symtab
    (fun i member => List.mem_range.mp member)
    (fun symtab link none_ => by cases none_) sections)
  exact ⟨found, syms, sections, read⟩

theorem Checked.load (checked : Checked image eh names) (layout : Layout) (b : Block) :
    ∃ r, load image layout b = .ok r := by
  have long := checked.long
  obtain ⟨found, syms, sections, read⟩ := checked.symbols
  unfold Elf.load
  rw [if_neg (by omega), checked.header, ok_bind, if_neg (not_not.mpr checked.elf),
    checked.nameTable, ok_bind, sections, ok_bind, read, ok_bind]
  split
  · exact ⟨_, rfl⟩
  · rename_i b' _
    obtain ⟨s, segments⟩ := foldlM_ok (List.range eh.phnum.toNat)
      (f := fun s i => Elf.segmentStep image eh i s) (false, (b'.markInvisible layout.invis).2)
      fun i member =>
        checked.segmentStep (List.mem_range.mp member)
    dsimp only
    rw [segments, ok_bind]
    split_ifs <;> exact ⟨_, rfl⟩

/-- Whatever host accepted an image, `mb_elf_span` and `mb_elf_load` read nothing outside it. -/
theorem reads_inside {aarch64 : Bool} (accepted : check aarch64 image = .ok ()) :
    (∃ r, span image = .ok r) ∧ ∀ layout b, ∃ r, load image layout b = .ok r := by
  obtain ⟨eh, names, checked⟩ := check_eq_ok accepted
  exact ⟨checked.span, checked.load⟩

end Load

/-- An image with one segment, its own first byte, and one section, which holds the names. -/
def smallHeader : Ehdr where
  ident := magic ++ [2, 1, 1] ++ List.replicate 9 0
  type := 2
  machine := emAarch64
  version := 1
  entry := 0x36f00000000
  phoff := 64
  shoff := 120
  flags := 0
  ehsize := 64
  phentsize := 56
  phnum := 1
  shentsize := 64
  shnum := 1
  shstrndx := 0

def smallImage : Image where
  bytes := smallHeader.encode ++
    Phdr.encode ⟨ptLoad, pfR, 0, 0x36f00000000, 0x36f00000000, 1, 1, 0x1000⟩ ++
    Shdr.encode ⟨0, 3, 0, 0, 15, 1, 0, 0, 1, 0⟩
  fits := by decide +kernel

theorem smallImage_reads_inside : check false smallImage = .ok () ∧
    (∃ r, span smallImage = .ok r) ∧ ∀ layout b, ∃ r, load smallImage layout b = .ok r := by
  have accepted : check false smallImage = .ok () := by decide +kernel
  exact ⟨accepted, reads_inside accepted⟩

end MiniBox.Elf
