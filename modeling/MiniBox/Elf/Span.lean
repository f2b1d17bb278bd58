import MiniBox.Elf.Reads

/-!
# The span of an image

An image is loaded at the addresses of its segments, and the machine's layout is built around
their span.  `mb_elf_span` takes it over every program header at a non-zero address, of whatever
type, where `mb_elf_check` has looked at the loaded ones alone.  `span_exact` says for which
images that is the span of the segments: the other headers are to lie inside it, with their ends
as 64 bits have them.
-/

namespace MiniBox.Elf

open Lib

/-! ## Headers and segments -/

/-- A program header of an image. -/
def Image.Header (image : Image) (ph : Phdr) : Prop :=
  ∃ eh i, image.ehdr = .ok eh ∧ i < eh.phnum.toNat ∧ image.phdr eh i = .ok ph

/-- A segment that is loaded. -/
def Image.Segment (image : Image) (ph : Phdr) : Prop :=
  image.Header ph ∧ ph.type = ptLoad ∧ ph.vaddr ≠ 0

/-- Where a segment ends; the end of the address space is one. -/
def Phdr.finish (ph : Phdr) : Nat := ph.vaddr.toNat + ph.memsz.toNat

/-- `r` is from the lowest start to the highest end of the segments. -/
structure Image.Spans (image : Image) (r : Range) : Prop where
  lowest : ∃ ph, image.Segment ph ∧ ph.vaddr = r.start
  low : ∀ ph, image.Segment ph → r.start ≤ ph.vaddr
  highest : ∃ ph, image.Segment ph ∧ ph.finish = r.start.toNat + r.size.toNat
  high : ∀ ph, image.Segment ph → ph.finish ≤ r.start.toNat + r.size.toNat

/-! ## The loop -/

/-- What the loop has kept of the headers it has seen. -/
structure Bounds (seen : Phdr → Prop) (s : UInt64 × UInt64) : Prop where
  low : ∀ ph, seen ph → s.1 ≤ ph.vaddr
  lowest : s.1 = 0xffffffffffffffff ∨ ∃ ph, seen ph ∧ ph.vaddr = s.1
  high : ∀ ph, seen ph → ph.vaddr + ph.memsz ≤ s.2
  highest : s.2 = 0 ∨ ∃ ph, seen ph ∧ ph.vaddr + ph.memsz = s.2

section Loop

variable {image : Image} {eh : Ehdr} {names : Shdr}

theorem Bounds.more {seen : Phdr → Prop} {s : UInt64 × UInt64} (bounds : Bounds seen s)
    (ph : Phdr) :
    Bounds (fun q => seen q ∨ q = ph)
      (if ph.vaddr < s.1 then ph.vaddr else s.1,
        if s.2 < ph.vaddr + ph.memsz then ph.vaddr + ph.memsz else s.2) := by
  refine ⟨fun q known => ?_, ?_, fun q known => ?_, ?_⟩
  · dsimp only
    rcases known with old | rfl
    · have := bounds.low q old
      split
      next less => exact UInt64.le_trans (UInt64.le_of_lt less) this
      · exact this
    · split
      · exact UInt64.le_refl _
      next more => exact UInt64.not_lt.mp more
  · dsimp only
    split
    · exact .inr ⟨ph, .inr rfl, rfl⟩
    · exact bounds.lowest.imp_right fun ⟨q, old, same⟩ => ⟨q, .inl old, same⟩
  · dsimp only
    rcases known with old | rfl
    · have := bounds.high q old
      split
      next less => exact UInt64.le_trans this (UInt64.le_of_lt less)
      · exact this
    · split
      · exact UInt64.le_refl _
      next more => exact UInt64.not_lt.mp more
  · dsimp only
    split
    · exact .inr ⟨ph, .inr rfl, rfl⟩
    · exact bounds.highest.imp_right fun ⟨q, old, same⟩ => ⟨q, .inl old, same⟩

theorem Bounds.congr {seen seen' : Phdr → Prop} {s : UInt64 × UInt64} (bounds : Bounds seen s)
    (same : ∀ ph, seen ph ↔ seen' ph) : Bounds seen' s := by
  rwa [show seen' = seen from funext fun ph => propext (same ph).symm]

/-- The headers at a non-zero address among these. -/
def Image.Seen (image : Image) (eh : Ehdr) (is : List Nat) (ph : Phdr) : Prop :=
  ph.vaddr ≠ 0 ∧ ∃ i ∈ is, image.phdr eh i = .ok ph

theorem spanStep_bounds {done : List Nat} {i : Nat} {s s' : UInt64 × UInt64}
    (bounds : Bounds (image.Seen eh done) s) (turn : spanStep image eh i s = .ok s') :
    Bounds (image.Seen eh (done ++ [i])) s' := by
  unfold spanStep at turn
  obtain ⟨ph, read, rest⟩ := bind_eq_ok.mp turn
  have seen : ∀ q, image.Seen eh (done ++ [i]) q ↔ image.Seen eh done q ∨ q.vaddr ≠ 0 ∧ q = ph := by
    intro q
    unfold Image.Seen
    simp only [List.mem_append, List.mem_singleton, or_and_right, exists_or, exists_eq_left, read,
      Except.ok.injEq, and_or_left, eq_comm (a := ph)]
  split at rest
  next zero =>
    cases rest
    refine bounds.congr fun q => ?_
    rw [seen, or_iff_left]
    rintro ⟨at_, rfl⟩
    exact at_ zero
  next at_ =>
    cases rest
    refine (bounds.more ph).congr fun q => ?_
    rw [seen]
    exact or_congr_right ⟨fun same => ⟨same ▸ at_, same⟩, fun both => both.2⟩

/-- The span that `mb_elf_span` answers, by the bounds of all headers. -/
theorem Checked.span_bounds (checked : Checked image eh names) : ∃ s : UInt64 × UInt64,
    Elf.span image = .ok ⟨s.1, s.2 - s.1⟩ ∧ Bounds
    (fun ph => image.Header ph ∧ ph.vaddr ≠ 0) s := by
  obtain ⟨r, answered⟩ := checked.span
  have loop := answered
  rw [Elf.span, checked.header, ok_bind] at loop
  obtain ⟨s, turns, same⟩ := bind_eq_ok.mp loop
  cases same
  refine ⟨s, answered, ?_⟩
  have start : Bounds (image.Seen eh []) (0xffffffffffffffff, 0) := by
    have none_ : ∀ ph, ¬ image.Seen eh [] ph := by
      rintro ph ⟨-, i, member, -⟩
      cases member
    exact ⟨fun ph seen => absurd seen (none_ ph), .inl rfl, fun ph seen => absurd seen (none_ ph),
      .inl rfl⟩
  have bounds := foldlM_invariant (fun done s => Bounds
      (image.Seen eh done) s) spanStep_bounds start turns
  refine bounds.congr fun ph => ?_
  unfold Image.Seen Image.Header
  rw [List.nil_append]
  constructor
  · rintro ⟨at_, i, member, read⟩
    exact ⟨⟨eh, i, checked.header, List.mem_range.mp member, read⟩, at_⟩
  · rintro ⟨⟨eh', i, header, inside, read⟩, at_⟩
    rw [checked.header] at header
    cases header
    exact ⟨at_, i, List.mem_range.mpr inside, read⟩

/-- The end of a segment is not cut. -/
theorem Checked.finish (checked : Checked image eh names) {ph : Phdr} (segment : image.Segment ph) :
    (ph.vaddr + ph.memsz).toNat = ph.finish ∧ ph.finish < 2 ^ 64 := by
  obtain ⟨⟨eh', i, header, inside, read⟩, load, -⟩ := segment
  rw [checked.header] at header
  cases header
  obtain ⟨q, same, fine⟩ := checked.phdrs i inside
  rw [read] at same
  cases same
  have wraps := (fine load).wraps
  refine ⟨?_, wraps⟩
  rw [UInt64.toNat_add, Phdr.finish]
  omega

end Loop

section Span

variable {image : Image}

/-- For an image that was accepted and has a segment, the span is that of its segments just when
every other header at a non-zero address starts no lower than one of them, and ends no higher. -/
theorem span_exact {aarch64 : Bool} (accepted : check aarch64 image = .ok ())
    (some_ : ∃ ph, image.Segment ph) : ∃ r, span image = .ok r ∧ (image.Spans r ↔
      ∀ ph, image.Header ph → ph.type ≠ ptLoad → ph.vaddr ≠ 0 →
        (∃ segment, image.Segment segment ∧ segment.vaddr ≤ ph.vaddr) ∧
          ∃ segment, image.Segment segment ∧ (ph.vaddr + ph.memsz).toNat ≤ segment.finish) := by
  obtain ⟨eh, names, checked⟩ := check_eq_ok accepted
  obtain ⟨⟨lo, hi⟩, answered, bounds⟩ := checked.span_bounds
  obtain ⟨first, loaded⟩ := some_
  have low : ∀ ph, image.Segment ph → lo ≤ ph.vaddr := fun ph segment =>
    bounds.low ph ⟨segment.1, segment.2.2⟩
  have high : ∀ ph, image.Segment ph → ph.finish ≤ hi.toNat := fun ph segment => by
    rw [← (checked.finish segment).1]
    exact UInt64.le_iff_toNat_le.mp (bounds.high ph ⟨segment.1, segment.2.2⟩)
  have order : lo ≤ hi := by
    have below := UInt64.le_iff_toNat_le.mp (low first loaded)
    have above := high first loaded
    rw [Phdr.finish] at above
    exact UInt64.le_iff_toNat_le.mpr (by omega)
  have sum : lo.toNat + (hi - lo).toNat = hi.toNat := by
    have := UInt64.le_iff_toNat_le.mp order
    rw [UInt64.toNat_sub_of_le _ _ order]
    omega
  refine ⟨_, answered, fun spans ph header other at_ => ⟨?_, ?_⟩, fun inside => ?_⟩
  · obtain ⟨segment, is, same⟩ := spans.lowest
    exact ⟨segment, is, same ▸ bounds.low ph ⟨header, at_⟩⟩
  · obtain ⟨segment, is, same⟩ := spans.highest
    refine ⟨segment, is, ?_⟩
    rw [same]
    exact sum ▸ UInt64.le_iff_toNat_le.mp (bounds.high ph ⟨header, at_⟩)
  · refine ⟨?_, low, ?_, fun ph segment => sum ▸ high ph segment⟩
    · rcases bounds.lowest with all | ⟨ph, ⟨header, at_⟩, same⟩
      · refine ⟨first, loaded, UInt64.le_antisymm ?_ (low first loaded)⟩
        dsimp only at all ⊢
        rw [all, UInt64.le_iff_toNat_le]
        exact Nat.le_of_lt_succ first.vaddr.toNat_lt
      · by_cases load : ph.type = ptLoad
        · exact ⟨ph, ⟨header, load, at_⟩, same⟩
        · obtain ⟨⟨segment, is, less⟩, -⟩ := inside ph header load at_
          exact ⟨segment, is, UInt64.le_antisymm (same ▸ less) (low segment is)⟩
    · rw [sum]
      have reaches : ∃ segment, image.Segment segment ∧ hi.toNat ≤ segment.finish := by
        rcases bounds.highest with none_ | ⟨ph, ⟨header, at_⟩, same⟩
        · exact ⟨first, loaded, by rw [show hi = 0 from none_]; exact Nat.zero_le _⟩
        · by_cases load : ph.type = ptLoad
          · have segment : image.Segment ph := ⟨header, load, at_⟩
            exact ⟨ph, segment, by rw [← (checked.finish segment).1, same]⟩
          · obtain ⟨-, segment, is, less⟩ := inside ph header load at_
            exact ⟨segment, is, by rw [same] at less; exact less⟩
      obtain ⟨segment, is, most⟩ := reaches
      exact ⟨segment, is, Nat.le_antisymm (high segment is) most⟩

end Span

/-- The headers of an image, as they are read. -/
theorem header_iff {image : Image} {eh : Ehdr} (header : image.ehdr = .ok eh) {ph : Phdr} :
    image.Header ph ↔ ∃ i < eh.phnum.toNat, image.phdr eh i = .ok ph := by
  unfold Image.Header
  rw [header]
  simp [eq_comm]

/-- An image with one segment and a note, at `note`. -/
def notedImage (note : UInt64) : Image where
  bytes := { smallHeader with phnum := 2, shoff := 176 }.encode ++
    Phdr.encode ⟨ptLoad, pfR, 0, 0x36f00000000, 0x36f00000000, 1, 0x1000, 0x1000⟩ ++
    Phdr.encode ⟨4, pfR, 0, note, note, 1, 1, 0x1000⟩ ++
    Shdr.encode ⟨0, 3, 0, 0, 15, 1, 0, 0, 1, 0⟩
  fits := by simp [Ehdr.encode, Phdr.encode, Shdr.encode, smallHeader, magic]

theorem notedImage_header {note : UInt64} (header : (notedImage note).ehdr =
      .ok { smallHeader with phnum := 2, shoff := 176 })
    (first : (notedImage note).phdr { smallHeader with phnum := 2, shoff := 176 } 0 =
      .ok ⟨ptLoad, pfR, 0, 0x36f00000000, 0x36f00000000, 1, 0x1000, 0x1000⟩)
    (second : (notedImage note).phdr { smallHeader with phnum := 2, shoff := 176 } 1 =
      .ok ⟨4, pfR, 0, note, note, 1, 1, 0x1000⟩) (ph : Phdr) :
    (notedImage note).Header ph ↔
      ph = ⟨ptLoad, pfR, 0, 0x36f00000000, 0x36f00000000, 1, 0x1000, 0x1000⟩ ∨
        ph = ⟨4, pfR, 0, note, note, 1, 1, 0x1000⟩ := by
  rw [header_iff header]
  constructor
  · rintro ⟨i, inside, read⟩
    have less : i < 2 := inside
    obtain rfl | rfl : i = 0 ∨ i = 1 := by omega
    · rw [first] at read
      exact .inl (Except.ok.inj read).symm
    · rw [second] at read
      exact .inr (Except.ok.inj read).symm
  · rintro (rfl | rfl)
    · exact ⟨0, by decide, first⟩
    · exact ⟨1, by decide, second⟩

theorem notedImage_segment {note : UInt64}
    (headers : ∀ ph, (notedImage note).Header ph ↔
      ph = ⟨ptLoad, pfR, 0, 0x36f00000000, 0x36f00000000, 1, 0x1000, 0x1000⟩ ∨
        ph = ⟨4, pfR, 0, note, note, 1, 1, 0x1000⟩) (ph : Phdr) :
    (notedImage note).Segment ph ↔
      ph = ⟨ptLoad, pfR, 0, 0x36f00000000, 0x36f00000000, 1, 0x1000, 0x1000⟩ := by
  unfold Image.Segment
  rw [headers]
  constructor
  · rintro ⟨rfl | rfl, load, -⟩
    · rfl
    · exact absurd load (by decide : (4 : UInt32) ≠ ptLoad)
  · rintro rfl
    exact ⟨.inl rfl, rfl, by decide⟩

/-- A note inside the segment leaves the span alone. -/
theorem span_exact_noted : check false (notedImage 0x36f00000010) = .ok () ∧ ∃ r, span
    (notedImage 0x36f00000010) = .ok r ∧
    (notedImage 0x36f00000010).Spans r := by
  have headers := @notedImage_header 0x36f00000010 (by decide +kernel) (by decide +kernel)
    (by decide +kernel)
  have segments := notedImage_segment headers
  have accepted : check false (notedImage 0x36f00000010) = .ok () := by decide +kernel
  obtain ⟨r, answered, exact_⟩ := span_exact accepted ⟨_, (segments _).mpr rfl⟩
  refine ⟨accepted, r, answered, exact_.mpr fun ph header other at_ => ?_⟩
  rcases (headers ph).mp header with rfl | rfl
  · exact absurd rfl other
  · exact ⟨⟨_, (segments _).mpr rfl, by decide⟩, _, (segments _).mpr rfl, by decide⟩

/-- A note below it is where the span starts. -/
theorem span_note : (∀ aarch64, check aarch64 (notedImage 0x1000) = .ok ()) ∧
    (∃ ph, (notedImage 0x1000).Segment ph) ∧
    span (notedImage 0x1000) = .ok ⟨0x1000, 0x36f00000000⟩ ∧
    ¬ (notedImage 0x1000).Spans ⟨0x1000, 0x36f00000000⟩ := by
  have headers := @notedImage_header 0x1000 (by decide +kernel) (by decide +kernel)
    (by decide +kernel)
  have segments := notedImage_segment headers
  refine ⟨by decide +kernel, ⟨_, (segments _).mpr rfl⟩, by decide +kernel, fun spans => ?_⟩
  obtain ⟨ph, segment, same⟩ := spans.lowest
  rw [(segments ph).mp segment] at same
  exact absurd same (by decide)

end MiniBox.Elf
