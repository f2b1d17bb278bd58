import MiniBox.Block.Life
import MiniBox.Block.Compose

/-!
# Streams that end early

A load or a delta whose stream ends before it should leaves a machine that nobody is to keep,
but the tracker's word about it has to stay true until it is thrown away.  `Block.Truthful` is
that word on a 4 KiB host: what the OS lets the guest write is what the tracker lets it write,
and a visible page that is not as it was sealed is dirty.

The entries read from the beginning of a delta are the first entries of the whole delta
(`deltaData_cut`), so a delta cut anywhere declares nothing clean that the delta does not.
-/

namespace MiniBox

open Lib

/-! ## The beginning of a delta -/

theorem readPage_more {old bytes : PageBytes} {stream rest : Bytes}
    (reads : readPage old stream = (bytes, some rest)) (more : Bytes) :
    readPage old (stream ++ more) = (bytes, some (rest ++ more)) := by
  unfold readPage at reads ⊢
  split at reads
  next whole =>
    cases reads
    rw [dif_pos (by rw [List.length_append]; omega)]
    simp only [List.take_append_of_le_length whole, List.drop_append_of_le_length whole]
  · cases reads

theorem DataEntry.read_append {stream rest : Bytes} {e : DataEntry}
    (read : DataEntry.read stream = .ok (e, rest)) (more : Bytes) :
    DataEntry.read (stream ++ more) = .ok (e, rest ++ more) := by
  unfold DataEntry.read at read ⊢
  split at read
  next idx tail index =>
    rw [rd_more index]
    split at read
    · cases read
    next bytes tail' page =>
      cases read
      simp only [readPage_more page]
  · cases read

theorem readData_append (more : Bytes) : ∀ (count : Nat) (stream : Bytes),
    readData count stream <+: readData count (stream ++ more)
  | 0, _ => List.prefix_refl _
  | count + 1, stream => by
    rw [readData, readData]
    cases read : DataEntry.read stream with
    | error e => exact List.nil_prefix
    | ok answer =>
      obtain ⟨e, rest⟩ := answer
      rw [DataEntry.read_append read]
      exact (List.prefix_cons_inj e).mpr (readData_append more count rest)

theorem deltaData_cut {cut stream : Bytes} (begins : cut <+: stream) :
    deltaData cut <+: deltaData stream := by
  obtain ⟨more, rfl⟩ := begins
  unfold deltaData
  cases counted : rd 8 (cut.drop (29 + leVal ((cut.drop 21).take 8) * 9)) with
  | none => exact List.nil_prefix
  | some answer =>
    obtain ⟨ndata, rest⟩ := answer
    -- the stream reaches past the status list, so its count is all there
    obtain ⟨split, length⟩ := rd_eq_some.mp counted
    have long := congrArg List.length split
    rw [List.length_drop, List.length_append, length] at long
    have count : ((cut ++ more).drop 21).take 8 = (cut.drop 21).take 8 := by
      rw [List.drop_append_of_le_length (by omega),
        List.take_append_of_le_length (by rw [List.length_drop]; omega)]
    rw [count, List.drop_append_of_le_length (by omega), rd_more counted]
    exact readData_append more _ rest

/-! ## What the tracker says -/

/-- The tracker's word about a block on a 4 KiB host, for pages sealed with `base`. -/
structure Block.Truthful (base : Nat → PageBytes) (b : Block) : Prop where
  /-- no page is mapped writable unless `mb_page_native_prot` of its record is -/
  mapped : ∀ i, (b.os i).writable = true → (b.page i).nativeProt.writable = true
  /-- a visible page that differs from what it was sealed with is dirty -/
  changed : ∀ i, (b.page i).invisible = false → (b.page i).mem ≠ base i → (b.page i).dirty = true
  /-- and has a copy to go back to -/
  copied : ∀ i, (b.page i).invisible = false → (b.page i).dirty = true → (b.page i).snap ≠ .none
  /-- a copy is one of what was sealed -/
  copies : ∀ i, (b.page i).invisible = false → ∀ bytes, (b.page i).baseline = some bytes →
    bytes = base i

section Truthful

variable {base : Nat → PageBytes} {b : Block}

theorem Block.Truthful.kept (h : b.Truthful base) (i : Nat) :
    (b.page i).Kept (b.hidden i) (base i) := by
  refine ⟨rfl, fun visible clean => ?_, fun visible none => ?_, h.copies i⟩
  · by_contra differs
    rw [h.changed i visible differs] at clean
    exact Bool.noConfusion clean
  · by_contra dirty
    exact h.copied i visible (Bool.not_eq_false _ ▸ dirty) none

theorem Block.Truthful.of_kept {inv : Nat → Bool} (exact_ : b.Exact)
    (kept : ∀ i, (b.page i).Kept (inv i) (base i)) : b.Truthful base := by
  refine ⟨exact_, fun i visible differs => ?_, fun i visible dirty => ?_, fun i visible => ?_⟩
  all_goals rw [(kept i).flag] at visible
  · by_contra clean
    exact differs ((kept i).clean visible (Bool.not_eq_true _ ▸ clean))
  · exact (kept i).present dirty visible
  · exact (kept i).baseline visible

/-- Nothing that may happen to a block makes the tracker lie, unless a delta declares a page
clean that is not as it was sealed. -/
theorem Block.Truthful.event (life : Life 0 b) (h : b.Truthful base) {e : Event}
    (declares : e.Declares (SealedWith b.hidden base)) : (e.run b).Truthful base := by
  have guarded := life.guarded
  have after := (Life.event e life).guarded
  have tight := (guarded.exact_ rfl).tight guarded.shift
  exact .of_kept (after.exact_ rfl) fun i =>
    (Event.kept tight guarded.recorded guarded.settled h.kept declares i).2

/-- The tracker is truthful after a load, whatever the stream and however it ends, and after a
delta cut short at any byte, if the whole of it declares clean only what was sealed. -/
theorem Block.truthful_cut (life : Life 0 b) (truthful : b.Truthful base) :
    (∀ cut, (b.loadState cut).2.Truthful base) ∧
      ∀ stream, Declares (SealedWith b.hidden base) (deltaData stream) →
        ∀ cut, cut <+: stream → (b.deltaApply cut).2.Truthful base := by
  constructor
  · intro cut
    exact truthful.event life (show Event.Declares _ (.loadState cut) from trivial)
  · intro stream declares cut begins
    refine truthful.event life (show Event.Declares _ (.deltaApply cut) from ?_)
    intro e listed clean
    exact declares e ((deltaData_cut begins).subset listed) clean

end Truthful

theorem Block.Of.truthful {inv : Nat → Bool} {base : Nat → PageBytes} {b o : Block}
    (h : b.Of inv base o) : b.Truthful base :=
  .of_kept h.exact_ h.sound.kept

/-- A delta that ends in the middle of its page: the page is half overwritten, and dirty. -/
theorem Block.truthful_cut_midPage : ∃ c,
    onePage.sealNow.2.deltaApply ((Delta.writes (.fill 9)).encode.take 100) = (.error .eio, c) ∧
      (c.page 0).mem.val.head? = some 9 ∧ (c.page 0).mem.val.getLast? = some 7 ∧
      (c.page 0).dirty = true ∧ c.Truthful onePage.image := by
  have declares : ∀ good, Declares good (deltaData (Delta.writes (.fill 9)).encode) := by
    intro good
    have read := deltaData_encode (Delta.writes (.fill 9)) onePage.fitsPages []
    rw [List.append_nil] at read
    rw [read]
    exact Delta.writes_declares good _
  obtain ⟨-, delta⟩ := truthful_cut onePage_built.life.sealNow onePage_built.of.truthful
  have after := delta _ (declares _) _ (List.take_prefix 100 _)
  have first : ((onePage.sealNow.2.deltaApply
      ((Delta.writes (.fill 9)).encode.take 100)).2.page 0).mem.val.head? = some 9 := by
    decide +kernel
  have was : (onePage.image 0).val.head? = some 7 := by decide +kernel
  refine ⟨_, Prod.ext (by decide +kernel) rfl, first, by decide +kernel, ?_, after⟩
  exact after.changed 0 (by decide +kernel) (PageBytes.ne_of_head first was (by decide))

end MiniBox
