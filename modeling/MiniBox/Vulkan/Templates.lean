import MiniBox.Lib.Bytes
import MiniBox.Vulkan.Table
import Mathlib.Data.UInt

/-!
# The data of a descriptor update template

A template says at which offsets of a block of data descriptors stand.  `vkb_template_data`
copies the block and puts the driver's handles for the guest's in place, one descriptor after
the other.  Sizes and places are sums of 64-bit numbers the guest chose, and wrap.

A place is an offset from the start of the copy; what the host's memory holds outside the copy
is `beyond`.  `touched` keeps the ranges that are read and written, and a `Window` is a handle's
place in them.
-/

namespace MiniBox.Vulkan

open Lib

/-- `VkDescriptorType`. -/
inductive DescriptorType where
  | sampler | combinedImageSampler | sampledImage | storageImage | inputAttachment
  | uniformBuffer | storageBuffer | uniformBufferDynamic | storageBufferDynamic
  | uniformTexelBuffer | storageTexelBuffer
  | inlineUniformBlock
  | other (n : UInt32)
  deriving DecidableEq, Repr

namespace DescriptorType

/-- `vkb_desc_uses_image`. -/
def usesImage : DescriptorType → Bool
  | sampler | combinedImageSampler | sampledImage | storageImage | inputAttachment => true
  | _ => false

/-- `vkb_desc_uses_buffer`. -/
def usesBuffer : DescriptorType → Bool
  | uniformBuffer | storageBuffer | uniformBufferDynamic | storageBufferDynamic => true
  | _ => false

/-- `vkb_desc_uses_view`. -/
def usesView : DescriptorType → Bool
  | uniformTexelBuffer | storageTexelBuffer => true
  | _ => false

/-- `vkb_desc_size`. -/
def size (t : DescriptorType) : Nat :=
  if t.usesImage then 24
  else if t.usesBuffer then 24
  else if t.usesView then 8
  else if t = .inlineUniformBlock then 1
  else 0

end DescriptorType

/-- `VkDescriptorUpdateTemplateEntry`, with what the host reads of it. -/
structure TemplateEntry where
  /-- `descriptorCount`; the bytes of an inline uniform block -/
  count : UInt32
  /-- `descriptorType` -/
  type : DescriptorType
  /-- where the first descriptor stands -/
  offset : UInt64
  /-- from one descriptor to the next -/
  stride : UInt64
  deriving DecidableEq, Repr

/-- The entries `vkb_special_vkCreateDescriptorUpdateTemplate` keeps. -/
def acceptsTemplate (entries : List TemplateEntry) : Bool := entries.all fun e => e.type.size ≠ 0

namespace TemplateEntry

variable (e : TemplateEntry)

/-- Where descriptor `k` stands. -/
def place (k : Nat) : UInt64 := e.offset + UInt64.ofNat k * e.stride

/-- The end of an entry's descriptors, as it is summed up. -/
def finish : UInt64 :=
  if e.type = .inlineUniformBlock then e.offset + e.count.toUInt64
  else e.offset + (e.count - 1).toUInt64 * e.stride + UInt64.ofNat e.type.size

end TemplateEntry

/-- The bytes a template's data must have. -/
def templateSize (entries : List TemplateEntry) : UInt64 :=
  entries.foldl (fun size e => if e.count ≠ 0 ∧ size < e.finish then e.finish else size) 0

/-! ## Translating -/

/-- A handle in the data.  One that counts only sometimes is `soft`: what names nothing is
passed as nothing. -/
structure Window where
  /-- its first byte -/
  at_ : UInt64
  /-- what the handle must name -/
  kind : Kind
  /-- a handle that names nothing is not refused -/
  soft : Bool
  deriving DecidableEq, Repr

/-- The handles of a descriptor: `vkb_x_VkDescriptorImageInfo`, `vkb_x_VkDescriptorBufferInfo`,
or a buffer view. -/
def DescriptorType.windows (t : DescriptorType) (place : UInt64) : List Window :=
  if t.usesImage then [⟨place, .sampler, true⟩, ⟨place + 8, .imageView, t = .sampler⟩]
  else if t.usesBuffer then [⟨place, .buffer, false⟩]
  else [⟨place, .bufferView, false⟩]

def readWord (bytes : UInt64 → UInt8) (at_ : UInt64) : UInt64 :=
  UInt64.ofNat (leVal ((List.range 8).map fun j => bytes (at_ + UInt64.ofNat j)))

def writeWord (bytes : UInt64 → UInt8) (at_ v : UInt64) (a : UInt64) : UInt8 :=
  ((le 8 v.toNat)[(a - at_).toNat]?).getD (bytes a)

/-- The copy, and `vkb_bad`. -/
structure Scratch where
  /-- the host's memory, from the start of the copy -/
  bytes : UInt64 → UInt8
  /-- a handle was refused -/
  bad : Bool := false
  /-- the ranges read and written so far -/
  touched : List (UInt64 × Nat) := []

/-- What `vkb_h0` and `vkb_h_soft` answer. -/
def Table.driver (t : Table) (id : UInt64) (kind : Kind) : UInt64 :=
  ((t.entry id kind).map Entry.host).getD 0

/-- `vkb_h0` or `vkb_h_soft` in place. -/
def Scratch.rewrite (t : Table) (s : Scratch) (w : Window) : Scratch :=
  let id := readWord s.bytes w.at_
  { s with
    bytes := writeWord s.bytes w.at_ (t.driver id w.kind)
    bad := s.bad || (!w.soft && id != 0 && (t.entry id w.kind).isNone) }

/-- Descriptor `k` of an entry. -/
def translateOne (t : Table) (e : TemplateEntry) (s : Scratch) (k : Nat) : Scratch :=
  (e.type.windows (e.place k)).foldl (Scratch.rewrite t)
    { s with touched := s.touched ++ [(e.place k, e.type.size)] }

def translateEntry (t : Table) (s : Scratch) (e : TemplateEntry) : Scratch :=
  if e.type = .inlineUniformBlock then s
  else (List.range e.count.toNat).foldl (translateOne t e) s

/-- `vkb_template_data`: no data is a null pointer. -/
def templateData (t : Table) (tmpl : Option (List TemplateEntry)) (data : Option (UInt64 → UInt8))
    (beyond : UInt64 → UInt8) : Option (UInt64 → UInt8) × Scratch :=
  match tmpl with
  | none => (none, { bytes := beyond, bad := true })
  | some entries =>
    let size := templateSize entries
    if size = 0 then (data, { bytes := beyond })
    else
      match data with
      | none => (none, { bytes := beyond, bad := true })
      | some data =>
        let s := entries.foldl (translateEntry t)
          { bytes := fun a => if a < size then data a else beyond a }
        (some s.bytes, s)

/-! ## Where it reads and writes -/

/-- Where an entry's last descriptor ends, in numbers that do not wrap. -/
def TemplateEntry.reach (e : TemplateEntry) : Nat :=
  if e.type = .inlineUniformBlock then e.offset.toNat + e.count.toNat
  else e.offset.toNat + (e.count.toNat - 1) * e.stride.toNat + e.type.size

/-- Each descriptor ends, modulo `2 ^ 64`, where some entry ends or below. -/
def TemplateFits (entries : List TemplateEntry) : Prop :=
  ∀ e ∈ entries, e.type ≠ .inlineUniformBlock → ∀ k < e.count.toNat,
    ∃ f ∈ entries, f.count ≠ 0 ∧
      (e.offset.toNat + k * e.stride.toNat) % 2 ^ 64 + e.type.size ≤ f.reach % 2 ^ 64

/-- The ends of a template's descriptors are 64-bit numbers. -/
def TemplateReach (entries : List TemplateEntry) : Prop :=
  ∀ e ∈ entries, e.type ≠ .inlineUniformBlock → e.count ≠ 0 → e.reach < 2 ^ 64

section Places

variable {t : Table} {entries : List TemplateEntry} {e : TemplateEntry}

theorem TemplateEntry.place_toNat {k : Nat} (less : k < e.count.toNat) :
    (e.place k).toNat = (e.offset.toNat + k * e.stride.toNat) % 2 ^ 64 := by
  have small := e.count.toNat_lt
  have number : (UInt64.ofNat k).toNat = k := UInt64.toNat_ofNat_of_lt' (by show k < 2 ^ 64; omega)
  rw [place, UInt64.toNat_add, UInt64.toNat_mul, number, Nat.add_mod_mod]

theorem TemplateEntry.finish_toNat (some_ : e.count ≠ 0) : e.finish.toNat = e.reach % 2 ^ 64 := by
  have small := e.count.toNat_lt
  have pos : 0 < e.count.toNat :=
    Nat.pos_of_ne_zero fun none_ => some_ (UInt32.toNat_inj.mp none_)
  have last : (e.count - 1).toUInt64.toNat = e.count.toNat - 1 := by
    rw [UInt32.toNat_toUInt64, UInt32.toNat_sub]
    show (2 ^ 32 - 1 + e.count.toNat) % 2 ^ 32 = _
    omega
  have size : (UInt64.ofNat e.type.size).toNat = e.type.size := by
    refine UInt64.toNat_ofNat_of_lt' ?_
    rw [DescriptorType.size]
    split_ifs <;> decide
  rw [finish, reach]
  split
  · rw [UInt64.toNat_add, UInt32.toNat_toUInt64]
  · rw [UInt64.toNat_add, UInt64.toNat_add, UInt64.toNat_mul, last, size, Nat.add_mod_mod,
      Nat.mod_add_mod]

/-- Numbers that do not wrap keep every descriptor below the end of its own entry. -/
theorem TemplateReach.fits (h : TemplateReach entries) : TemplateFits entries := by
  intro e member bytes k less
  have some_ : e.count ≠ 0 := by
    rintro none_
    rw [none_] at less
    exact Nat.not_lt_zero k less
  have reach := h e member bytes some_
  have before : k * e.stride.toNat ≤ (e.count.toNat - 1) * e.stride.toNat :=
    Nat.mul_le_mul_right _ (by omega)
  refine ⟨e, member, some_, ?_⟩
  rw [Nat.mod_eq_of_lt reach]
  rw [TemplateEntry.reach, if_neg bytes] at reach ⊢
  rw [Nat.mod_eq_of_lt (by omega)]
  omega

theorem le_templateSize {n : Nat} : n ≤ (templateSize entries).toNat ↔
    n = 0 ∨ ∃ f ∈ entries, f.count ≠ 0 ∧ n ≤ f.finish.toNat := by
  -- the largest end so far is what is carried from entry to entry
  have from_ : ∀ (entries : List TemplateEntry) (size : UInt64),
      n ≤ (entries.foldl (fun size e => if e.count ≠ 0 ∧ size < e.finish then e.finish else size)
        size).toNat ↔ n ≤ size.toNat ∨ ∃ f ∈ entries, f.count ≠ 0 ∧ n ≤ f.finish.toNat := by
    intro entries
    induction entries with
    | nil => simp
    | cons e rest ih =>
      intro size
      rw [List.foldl_cons, ih, List.exists_mem_cons_iff, ← or_assoc]
      refine or_congr_left ?_
      split
      · rename_i more
        have less := UInt64.lt_iff_toNat_lt.mp more.2
        simp only [more.1, ne_eq, not_false_eq_true, true_and]
        omega
      · rename_i less
        simp only [not_and_or, not_not, UInt64.not_lt, UInt64.le_iff_toNat_le] at less
        constructor
        · exact .inl
        · rintro (below | ⟨some_, below⟩)
          · exact below
          · have less := less.resolve_left some_
            omega
  rw [templateSize, from_]
  simp

/-- A descriptor ends inside the size. -/
theorem TemplateFits.place_le (h : TemplateFits entries) (member : e ∈ entries)
    (bytes : e.type ≠ .inlineUniformBlock) {k : Nat} (less : k < e.count.toNat) :
    (e.place k).toNat + e.type.size ≤ (templateSize entries).toNat := by
  obtain ⟨f, listed, some_, below⟩ := h e member bytes k less
  rw [TemplateEntry.place_toNat less]
  exact le_templateSize.mpr (.inr ⟨f, listed, some_, f.finish_toNat some_ ▸ below⟩)

/-- The ranges of an entry's descriptors. -/
def TemplateEntry.ranges (e : TemplateEntry) : List (UInt64 × Nat) :=
  if e.type = .inlineUniformBlock then []
  else (List.range e.count.toNat).flatMap fun k => [(e.place k, e.type.size)]

/-- The handles of an entry's descriptors. -/
def TemplateEntry.windows (e : TemplateEntry) : List Window :=
  if e.type = .inlineUniformBlock then []
  else (List.range e.count.toNat).flatMap fun k => e.type.windows (e.place k)

def Scratch.touch (s : Scratch) (ranges : List (UInt64 × Nat)) : Scratch :=
  { s with touched := s.touched ++ ranges }

theorem rewrites_touch {ranges : List (UInt64 × Nat)} : ∀ (ws : List Window) (s : Scratch),
    ws.foldl (Scratch.rewrite t) (s.touch ranges) = (ws.foldl (Scratch.rewrite t) s).touch ranges
  | [], _ => rfl
  | w :: ws, s => rewrites_touch ws (s.rewrite t w)

theorem rewrites_touched : ∀ (ws : List Window) (s : Scratch),
    (ws.foldl (Scratch.rewrite t) s).touched = s.touched
  | [], _ => rfl
  | w :: ws, s => rewrites_touched ws (s.rewrite t w)

/-- A loop whose turns rewrite windows and touch ranges does so for all of them. -/
theorem foldl_rewrites {α : Type} {f : Scratch → α → Scratch} {ws : α → List Window}
    {ranges : α → List (UInt64 × Nat)}
    (one : ∀ s a, f s a = ((ws a).foldl (Scratch.rewrite t) s).touch (ranges a)) :
    ∀ (as : List α) (s : Scratch), as.foldl f s =
      ((as.flatMap ws).foldl (Scratch.rewrite t) s).touch (as.flatMap ranges)
  | [], s => by simp [Scratch.touch]
  | a :: as, s => by
    rw [List.foldl_cons, foldl_rewrites one as, one, rewrites_touch, List.flatMap_cons,
      List.foldl_append, List.flatMap_cons, Scratch.touch, Scratch.touch, Scratch.touch,
      List.append_assoc]

theorem translateEntry_eq (s : Scratch) (e : TemplateEntry) :
    translateEntry t s e = (e.windows.foldl (Scratch.rewrite t) s).touch e.ranges := by
  unfold translateEntry TemplateEntry.windows TemplateEntry.ranges
  split
  · simp [Scratch.touch]
  · exact foldl_rewrites (f := translateOne t e) (fun s k => rewrites_touch _ s) _ s

end Places

/-- Of a template whose descriptors all end below `2 ^ 64`, every range that `vkb_template_data`
reads and writes lies in the size it copied. -/
theorem templateData_inside {entries : List TemplateEntry} (reach : TemplateReach entries)
    (t : Table) (data beyond : UInt64 → UInt8) :
    ∀ x ∈ (templateData t (some entries) (some data) beyond).2.touched,
      x.1.toNat + x.2 ≤ (templateSize entries).toNat := by
  rw [templateData]
  dsimp only
  split
  · exact List.forall_mem_nil _
  · rw [foldl_rewrites translateEntry_eq, Scratch.touch, rewrites_touched, List.nil_append]
    intro x here
    obtain ⟨e, member, here⟩ := List.mem_flatMap.mp here
    rw [TemplateEntry.ranges] at here
    split at here
    · cases here
    · rename_i bytes
      obtain ⟨k, less, is⟩ := List.mem_flatMap.mp here
      rw [List.mem_singleton.mp is]
      exact reach.fits.place_le member bytes (List.mem_range.mp less)

/-- Two buffers that stand one after the other. -/
theorem templateData_inside_two :
    let entries : List TemplateEntry := [⟨2, .uniformBuffer, 0, 24⟩]
    let touched := (templateData {} (some entries) (some fun _ => 0) fun _ => 0).2.touched
    acceptsTemplate entries = true ∧ TemplateReach entries ∧ touched = [(0, 24), (24, 24)] ∧
      ∀ x ∈ touched, x.1.toNat + x.2 ≤ 48 := by
  have reach : TemplateReach [⟨2, .uniformBuffer, 0, 24⟩] := by
    intro e member _ _
    rw [List.mem_singleton.mp member]
    decide
  exact ⟨by decide, reach, by decide +kernel, templateData_inside reach _ _ _⟩

/-- Numbers that wrap need not lead outside: a stride that runs backwards stays in what another
entry asks for. -/
example :
    let entries : List TemplateEntry :=
      [⟨2, .uniformBuffer, 24, 0xffffffffffffffe8⟩, ⟨1, .uniformBuffer, 24, 0⟩]
    entries.all (fun e => e.reach < 2 ^ 64) = false ∧
      ∀ x ∈ (templateData {} (some entries) (some fun _ => 0) fun _ => 0).2.touched,
        x.1.toNat + x.2 ≤ (templateSize entries).toNat := by
  decide +kernel

/-- Three buffers half of the address space apart: the third stands where the first does, and the
size is that of one. -/
theorem templateData_outside : acceptsTemplate [⟨3, .uniformBuffer, 0, 0x8000000000000000⟩] = true ∧
    templateSize [⟨3, .uniformBuffer, 0, 0x8000000000000000⟩] = 24 ∧
    (0x8000000000000000, 24) ∈ (templateData {} (some [⟨3, .uniformBuffer, 0, 0x8000000000000000⟩])
      (some fun _ => 0) fun _ => 0).2.touched := by
  decide +kernel

/-! ## What it writes -/

/-- A window's bytes. -/
def Window.Covers (w : Window) (a : UInt64) : Prop := (a - w.at_).toNat < 8

/-- The driver's handle for the guest's handle in a window. -/
def Window.driver (w : Window) (t : Table) (data : UInt64 → UInt8) : UInt64 :=
  t.driver (readWord data w.at_) w.kind

/-- A byte of it. -/
def Window.byte (w : Window) (t : Table) (data : UInt64 → UInt8) (a : UInt64) : UInt8 :=
  writeWord data w.at_ (w.driver t data) a

/-- Where two windows share a byte, both handles of the driver have the guest's there. -/
def Window.Agree (t : Table) (data : UInt64 → UInt8) (w w' : Window) : Prop :=
  ∀ a, w.Covers a → w'.Covers a → w.byte t data a = data a ∧ w'.byte t data a = data a

/-- A window holds null, or the handle of something of its kind that lives. -/
def Window.Held (t : Table) (data : UInt64 → UInt8) (w : Window) : Prop :=
  readWord data w.at_ = 0 ∨ (t.entry (readWord data w.at_) w.kind).isSome = true

section Words

variable {t : Table} {data bytes : UInt64 → UInt8} {w : Window}

theorem Window.at_sub {j : Nat} (less : j < 8) : (w.at_ + UInt64.ofNat j - w.at_).toNat = j := by
  rw [add_sub_cancel_left]
  exact UInt64.toNat_ofNat_of_lt' (by show j < 2 ^ 64; omega)

theorem Window.covers_at {j : Nat} (less : j < 8) : w.Covers (w.at_ + UInt64.ofNat j) := by
  rw [Covers, at_sub less]
  exact less

theorem readWord_congr (same : ∀ a, w.Covers a → bytes a = data a) :
    readWord bytes w.at_ = readWord data w.at_ := by
  unfold readWord
  refine congrArg (fun bs => UInt64.ofNat (leVal bs)) (List.map_congr_left fun j less => ?_)
  exact same _ (Window.covers_at (List.mem_range.mp less))

theorem writeWord_eq {v a : UInt64} (covers : w.Covers a) :
    writeWord bytes w.at_ v a = writeWord data w.at_ v a := by
  unfold writeWord
  have inside : (a - w.at_).toNat < (le 8 v.toNat).length := by rw [le_length]; exact covers
  rw [List.getElem?_eq_getElem inside]
  rfl

theorem writeWord_other {v a : UInt64} (outside : ¬ w.Covers a) :
    writeWord bytes w.at_ v a = bytes a := by
  unfold writeWord
  rw [List.getElem?_eq_none]
  · rfl
  · rw [le_length]
    exact Nat.not_lt.mp outside

theorem readWord_writeWord {v : UInt64}
    (same : ∀ a, w.Covers a → bytes a = writeWord data w.at_ v a) :
    readWord bytes w.at_ = v := by
  have word : (List.range 8).map (fun j => bytes (w.at_ + UInt64.ofNat j)) = le 8 v.toNat := by
    refine List.ext_getElem (by simp) fun j inside here => ?_
    have less : j < 8 := by simpa using inside
    rw [List.getElem_map, List.getElem_range, same _ (Window.covers_at less), writeWord,
      Window.at_sub less, List.getElem?_eq_getElem here]
    rfl
  have small := v.toNat_lt
  rw [readWord, word, leVal_le (by omega), UInt64.ofNat_toNat]

/-- Windows that agree are rewritten as if each were alone. -/
theorem rewrites_agree : ∀ {ws : List Window} {s : Scratch}, ws.Pairwise (Window.Agree t data) →
    (∀ w ∈ ws, ∀ a, w.Covers a → s.bytes a = data a) → (∀ w ∈ ws, w.Held t data) →
    (ws.foldl (Scratch.rewrite t) s).bad = s.bad ∧
      (∀ w ∈ ws, ∀ a, w.Covers a → (ws.foldl (Scratch.rewrite t) s).bytes a = w.byte t data a) ∧
      ∀ a, (∀ w ∈ ws, ¬ w.Covers a) → (ws.foldl (Scratch.rewrite t) s).bytes a = s.bytes a
  | [], s, _, _, _ => ⟨rfl, List.forall_mem_nil _, fun _ _ => rfl⟩
  | w :: ws, s, agree, whole, held => by
    obtain ⟨apart, agree⟩ := List.pairwise_cons.mp agree
    have read := readWord_congr (whole w List.mem_cons_self)
    have mine : ∀ a, w.Covers a → (s.rewrite t w).bytes a = w.byte t data a := fun a covers => by
      rw [Scratch.rewrite, read]
      exact writeWord_eq covers
    have others : ∀ a, ¬ w.Covers a → (s.rewrite t w).bytes a = s.bytes a := fun a outside =>
      writeWord_other outside
    have good : (s.rewrite t w).bad = s.bad := by
      rw [Scratch.rewrite, read]
      rcases held w List.mem_cons_self with null | live
      · simp [null]
      · obtain ⟨e, found⟩ := Option.isSome_iff_exists.mp live
        simp [found]
    -- what the rewriting changed of the other windows is as the guest has it
    have left : ∀ w' ∈ ws, ∀ a, w'.Covers a → (s.rewrite t w).bytes a = data a := by
      intro w' member a covers
      by_cases both : w.Covers a
      · rw [mine a both]
        exact (apart w' member a both covers).1
      · rw [others a both]
        exact whole w' (List.mem_cons_of_mem _ member) a covers
    obtain ⟨bad, covered, rest⟩ := rewrites_agree agree left fun w' member =>
      held w' (List.mem_cons_of_mem _ member)
    refine ⟨bad.trans good, fun w' member a covers => ?_, fun a outside => ?_⟩
    · rcases List.mem_cons.mp member with rfl | member
      · by_cases again : ∃ w'' ∈ ws, w''.Covers a
        · obtain ⟨w'', member, too⟩ := again
          obtain ⟨first, second⟩ := apart w'' member a covers too
          exact ((covered w'' member a too).trans second).trans first.symm
        · exact (rest a fun w'' member too => again ⟨w'', member, too⟩).trans (mine a covers)
      · exact covered w' member a covers
    · rw [List.forall_mem_cons] at outside
      exact (rest a outside.2).trans (others a outside.1)

end Words

/-- The handles of a template's data. -/
def templateWindows (entries : List TemplateEntry) : List Window :=
  entries.flatMap TemplateEntry.windows

theorem TemplateEntry.window_place {e : TemplateEntry} (known : e.type.size ≠ 0) {w : Window}
    (member : w ∈ e.windows) : e.type ≠ .inlineUniformBlock ∧ ∃ k < e.count.toNat,
      ∃ d : UInt64, w.at_ = e.place k + d ∧ d.toNat + 8 ≤ e.type.size := by
  rw [windows] at member
  split at member
  · cases member
  · rename_i bytes
    obtain ⟨k, less, member⟩ := List.mem_flatMap.mp member
    refine ⟨bytes, k, List.mem_range.mp less, ?_⟩
    rw [DescriptorType.size] at known ⊢
    rw [DescriptorType.windows] at member
    split at member
    · rename_i image
      rw [if_pos image]
      simp only [List.mem_cons, List.not_mem_nil, or_false] at member
      rcases member with rfl | rfl
      · exact ⟨0, (add_zero _).symm, by decide⟩
      · exact ⟨8, rfl, by decide⟩
    · rename_i image
      rw [if_neg image] at known ⊢
      refine ⟨0, ?_, ?_⟩
      · split at member <;> rw [List.mem_singleton.mp member] <;> exact (add_zero _).symm
      · rw [if_neg bytes] at known ⊢
        split_ifs at known ⊢ <;> first | decide | exact absurd rfl known

theorem TemplateFits.covered {entries : List TemplateEntry}
    (accepted : acceptsTemplate entries = true) (fits : TemplateFits entries) {w : Window}
    (member : w ∈ templateWindows entries) {a : UInt64} (covers : w.Covers a) :
    a < templateSize entries := by
  obtain ⟨e, entry, member⟩ := List.mem_flatMap.mp member
  have known : e.type.size ≠ 0 := by
    have all : ∀ e ∈ entries, e.type.size ≠ 0 := by simpa [acceptsTemplate] using accepted
    exact all e entry
  obtain ⟨bytes, k, less, d, place, room⟩ := e.window_place known member
  have finish := fits.place_le entry bytes less
  have small := (templateSize entries).toNat_lt
  have sum : a = e.place k + (d + (a - w.at_)) := by
    rw [place, ← add_assoc, add_sub_cancel]
  have covers : (a - w.at_).toNat < 8 := covers
  rw [UInt64.lt_iff_toNat_lt, sum, UInt64.toNat_add, UInt64.toNat_add]
  omega

/-- Data in whose every descriptor handles live or are null is translated, if the descriptors
lie in what is copied and two that share a byte agree on it. -/
theorem templateData_translates {entries : List TemplateEntry} {t : Table} {data : UInt64 → UInt8}
    (accepted : acceptsTemplate entries = true)
    (held : ∀ w ∈ templateWindows entries, w.Held t data) (fits : TemplateFits entries)
    (agree : (templateWindows entries).Pairwise (Window.Agree t data)) (beyond : UInt64 → UInt8) :
    ∃ copy, (templateData t (some entries) (some data) beyond).1 = some copy ∧
      (templateData t (some entries) (some data) beyond).2.bad = false ∧
      (∀ w ∈ templateWindows entries, readWord copy w.at_ = w.driver t data) ∧
      ∀ a < templateSize entries, (∀ w ∈ templateWindows entries, ¬ w.Covers a) →
        copy a = data a := by
  rw [templateData]
  dsimp only
  split
  · rename_i zero
    refine ⟨data, rfl, rfl, fun w member => ?_, fun _ _ _ => rfl⟩
    have inside := fits.covered accepted member (w.covers_at (Nat.zero_lt_succ 7))
    rw [zero] at inside
    exact absurd inside (UInt64.not_lt.mpr (UInt64.le_iff_toNat_le.mpr (Nat.zero_le _)))
  · rw [foldl_rewrites translateEntry_eq]
    obtain ⟨bad, covered, rest⟩ := rewrites_agree
      (s := { bytes := fun a => if a < templateSize entries then data a else beyond a }) agree
      (fun w member a covers => if_pos (fits.covered accepted member covers)) held
    refine ⟨_, rfl, bad, fun w member => readWord_writeWord (covered w member),
      fun a inside outside => ?_⟩
    exact (rest a outside).trans (if_pos inside)

theorem writeWord_readWord (data : UInt64 → UInt8) (at_ a : UInt64) :
    writeWord data at_ (readWord data at_) a = data a := by
  have word : le 8 (readWord data at_).toNat =
      (List.range 8).map fun j => data (at_ + UInt64.ofNat j) := by
    have back := le_leVal ((List.range 8).map fun j => data (at_ + UInt64.ofNat j))
    have small := leVal_lt ((List.range 8).map fun j => data (at_ + UInt64.ofNat j))
    rw [List.length_map, List.length_range] at back small
    rw [readWord, UInt64.toNat_ofNat_of_lt' small, back]
  rw [writeWord, word]
  by_cases inside : (a - at_).toNat < 8
  · simp [List.getElem?_map, List.getElem?_range inside, UInt64.ofNat_toNat]
  · rw [List.getElem?_eq_none (by simpa using inside)]
    rfl

/-- A handle that is the driver's too agrees with its neighbours. -/
theorem Window.byte_same {t : Table} {data : UInt64 → UInt8} {w : Window}
    (same : w.driver t data = readWord data w.at_) (a : UInt64) : w.byte t data a = data a := by
  rw [byte, same, writeWord_readWord]

/-- A table with two buffers; the driver's handle for the second is the guest's. -/
def twoBuffers : Table where
  entries i :=
    if i = 1 then { host := 5, kind := .buffer }
    else if i = 2 then { host := handleOf 1 0 2, kind := .buffer }
    else {}
  count := 3

/-- Data that names the first buffer at 0 and the second at 8. -/
def bufferData (a : UInt64) : UInt8 :=
  writeWord (writeWord (fun _ => 0) 0 (handleOf 1 0 1)) 8 (handleOf 1 0 2) a

theorem twoBuffers_held : Window.Held twoBuffers bufferData ⟨0, .buffer, false⟩ ∧
    Window.Held twoBuffers bufferData ⟨8, .buffer, false⟩ :=
  ⟨.inr (by decide +kernel), .inr (by decide +kernel)⟩

/-- The first is translated, and two descriptors share the second. -/
theorem templateData_translates_two :
    let entries : List TemplateEntry := [⟨1, .uniformBuffer, 0, 0⟩, ⟨2, .uniformBuffer, 8, 0⟩]
    ∃ copy, (templateData twoBuffers (some entries) (some bufferData) fun _ => 0).1 = some copy ∧
      (templateData twoBuffers (some entries) (some bufferData) fun _ => 0).2.bad = false ∧
      readWord copy 0 = 5 ∧ readWord copy 8 = handleOf 1 0 2 := by
  have windows : templateWindows [⟨1, .uniformBuffer, 0, 0⟩, ⟨2, .uniformBuffer, 8, 0⟩] =
      [⟨0, .buffer, false⟩, ⟨8, .buffer, false⟩, ⟨8, .buffer, false⟩] := by decide
  have fits : TemplateFits [⟨1, .uniformBuffer, 0, 0⟩, ⟨2, .uniformBuffer, 8, 0⟩] := by
    refine TemplateReach.fits fun e member _ _ => ?_
    simp only [List.mem_cons, List.not_mem_nil, or_false] at member
    rcases member with rfl | rfl <;> decide
  have apart : Window.Agree twoBuffers bufferData ⟨0, .buffer, false⟩ ⟨8, .buffer, false⟩ := by
    intro a first second
    rw [Window.Covers, UInt64.toNat_sub] at first second
    have small := a.toNat_lt
    change (2 ^ 64 - 0 + a.toNat) % 2 ^ 64 < 8 at first
    change (2 ^ 64 - 8 + a.toNat) % 2 ^ 64 < 8 at second
    omega
  have shared : Window.Agree twoBuffers bufferData ⟨8, .buffer, false⟩ ⟨8, .buffer, false⟩ := by
    have same : Window.driver ⟨8, .buffer, false⟩ twoBuffers bufferData =
        readWord bufferData 8 := by
      decide +kernel
    exact fun a _ _ => ⟨Window.byte_same same a, Window.byte_same same a⟩
  obtain ⟨first, second⟩ := twoBuffers_held
  obtain ⟨copy, made, good, driver, -⟩ := templateData_translates (by decide)
    (by rw [windows]; simpa using ⟨first, second⟩) fits
    (by rw [windows]; simpa using ⟨apart, shared⟩) fun _ => 0
  rw [windows] at driver
  exact ⟨copy, made, good, (driver _ List.mem_cons_self).trans (by decide +kernel),
    (driver ⟨8, .buffer, false⟩ (by simp)).trans (by decide +kernel)⟩

/-- Two descriptors in one place hold a buffer that lives, and the data is refused: the second
time it is the driver's handle that is looked up. -/
theorem templateData_refuses : acceptsTemplate [⟨2, .uniformBuffer, 0, 0⟩] = true ∧
    (∀ w ∈ templateWindows [⟨2, .uniformBuffer, 0, 0⟩], w.Held twoBuffers bufferData) ∧
    (templateData twoBuffers (some [⟨2, .uniformBuffer, 0, 0⟩]) (some bufferData)
      fun _ => 0).2.bad = true := by
  refine ⟨by decide, ?_, by decide +kernel⟩
  have windows : templateWindows [⟨2, .uniformBuffer, 0, 0⟩] =
      [⟨0, .buffer, false⟩, ⟨0, .buffer, false⟩] := by decide
  rw [windows]
  exact List.forall_mem_cons.mpr ⟨twoBuffers_held.1,
    List.forall_mem_singleton.mpr twoBuffers_held.1⟩

end MiniBox.Vulkan
