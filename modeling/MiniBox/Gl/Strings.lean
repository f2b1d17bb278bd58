import MiniBox.Lib.Slice
import MiniBox.Lib.Table
import Mathlib.Data.Set.Insert

/-!
# The strings OpenGL answers with

`glGetString` promises strings that stay where they are, and a guest cannot be handed the driver's.
Each question, a name and an index, has a place in a pool of the guest's, and `keep` puts the
driver's answer there: over the last one where it fits, else in a new place at the end of what is
used.  A place that was left keeps what it held.

The places given out so far are not in the code, which forgets the ones it leaves.  They are the
ghost of `Sound`: disjoint, all below `used`, and each one holds what was last put there.  A
question that was answered has a slot, whose place is as long as a string that was put there.
-/

namespace MiniBox.Gl

open Lib

/-- `CHIMERA_GL_STRING_SLOTS`. -/
def slotCount : Nat := 2048

/-- `CHIMERA_GL_STRING_POOL`. -/
def poolSize : Nat := 256 * 1024

/-- What a string answers. -/
structure Question where
  /-- what is asked for -/
  name : UInt32
  /-- which of several, or `CHIMERA_GL_STRING_NO_INDEX` -/
  index : UInt32
  deriving DecidableEq

/-- `struct chimera_gl_string_slot`. -/
structure StringSlot where
  /-- `name` and `index` -/
  key : Question
  /-- where its place begins in the pool -/
  offset : Nat
  /-- the bytes of its place -/
  capacity : Nat
  deriving DecidableEq

structure Strings where
  /-- the slots in use -/
  slots : List StringSlot := []
  /-- the bytes of the pool given out -/
  used : Nat := 0
  /-- the pool -/
  pool : Bytes := List.replicate poolSize 0

structure Ask where
  /-- the question -/
  key : Question
  /-- the driver's answer, without its terminator -/
  fresh : Bytes

def Ask.bytes (a : Ask) : Bytes := a.fresh ++ [0]

namespace Strings

/-- `chimera_gl_string_keep`: the offset of the place, or null. -/
def keep (k : Strings) (a : Ask) : Option Nat × Strings :=
  let slot := k.slots.find? fun s => s.key == a.key
  let len := a.bytes.length
  match slot.filter fun s => len ≤ s.capacity with
  | some s =>
    -- compared first: a write nobody needed is a page in the next state
    (some s.offset,
      if (k.pool.drop s.offset).take len = a.bytes then k
      else { k with pool := patch k.pool s.offset a.bytes })
  | none =>
    if poolSize - k.used < len then (none, k)
    else if slot = none ∧ k.slots.length = slotCount then (none, k)
    else
      let place : StringSlot := ⟨a.key, k.used, len⟩
      let slots := if slot = none then k.slots ++ [place]
        else k.slots.modify (k.slots.findIdx fun s => s.key == a.key) fun _ => place
      (some k.used, ⟨slots, k.used + len, patch k.pool k.used a.bytes⟩)

/-- The calls, newest first, with their answers, and what they leave. -/
def after : List Ask → List (Ask × Option Nat) × Strings
  | [] => ([], {})
  | a :: earlier =>
    let (answers, k) := after earlier
    let (answer, k) := k.keep a
    ((a, answer) :: answers, k)

end Strings

/-! ## One call -/

/-- `data` was put at `off`, and nothing else changed. -/
structure Written (old new : Bytes) (off : Nat) (data : Bytes) : Prop where
  length : new.length = old.length
  has : Has new off data
  outside : ∀ i, i < off ∨ off + data.length ≤ i → new[i]? = old[i]?

theorem Written.patch {old data : Bytes} {off : Nat} (fits : off + data.length ≤ old.length) :
    Written old (patch old off data) off data :=
  ⟨patch_length fits, patch_has fits, fun _ apart => patch_outside fits apart⟩

theorem Written.keeps {old new data given : Bytes} {off at_ : Nat} (h : Written old new off data)
    (has : Has old at_ given)
    (apart : at_ + given.length ≤ off ∨ off + data.length ≤ at_) : Has new at_ given :=
  has.congr fun k below => h.outside (at_ + k) (by omega)

/-- What stands in the table and the pool after some answers.  `places` are all that were ever
given out. -/
structure Sound (answers : List (Ask × Option Nat)) (k : Strings) (places : Set StringSlot) :
    Prop where
  pool : k.pool.length = poolSize
  used : k.used ≤ poolSize
  keys : (k.slots.map StringSlot.key).Nodup
  kept : ∀ s ∈ k.slots, s ∈ places
  below : ∀ p ∈ places, p.offset + p.capacity ≤ k.used
  apart : ∀ p ∈ places, ∀ q ∈ places, p ≠ q →
    p.offset + p.capacity ≤ q.offset ∨ q.offset + q.capacity ≤ p.offset
  answered : ∀ e ∈ answers, ∀ off, e.2 = some off → ∃ p ∈ places, p.key = e.1.key ∧
    p.offset = off ∧ e.1.bytes.length ≤ p.capacity
  reads : ∀ key off e, answers.find? (fun e => e.1.key = key ∧ e.2 = some off) = some e →
    Has k.pool off e.1.bytes
  newest : ∀ s ∈ k.slots, ∃ e, answers.find? (fun e => e.1.key = s.key ∧ e.2.isSome) = some e ∧
    e.2 = some s.offset
  slotted : ∀ e ∈ answers, e.2.isSome = true → ∃ s ∈ k.slots, s.key = e.1.key
  sized : ∀ s ∈ k.slots, ∃ e ∈ answers, e.1.key = s.key ∧ e.2 = some s.offset ∧
    e.1.bytes.length = s.capacity

/-- What a call does: nothing, a write over the place of its question, or a place at the end. -/
inductive Kept (k : Strings) (a : Ask) : Option Nat × Strings → Prop where
  | refused : (∀ s ∈ k.slots, s.key = a.key → s.capacity < a.bytes.length) → Kept k a (none, k)
  | rewritten {s : StringSlot} {pool : Bytes} : s ∈ k.slots → s.key = a.key →
      a.bytes.length ≤ s.capacity → Written k.pool pool s.offset a.bytes →
      Kept k a (some s.offset, { k with pool })
  | placed {slots : List StringSlot} {pool : Bytes} :
      (∀ s ∈ k.slots, s.key = a.key → s.capacity < a.bytes.length) →
      (∀ s, s ∈ slots ↔ s = ⟨a.key, k.used, a.bytes.length⟩ ∨
        s ∈ k.slots ∧ s.key ≠ a.key) →
      (slots.map StringSlot.key).Nodup → k.used + a.bytes.length ≤ poolSize →
      Written k.pool pool k.used a.bytes →
      Kept k a (some k.used, ⟨slots, k.used + a.bytes.length, pool⟩)

variable {answers : List (Ask × Option Nat)} {k : Strings} {places : Set StringSlot}

section

variable (h : Sound answers k places)
include h

theorem Sound.keep (a : Ask) : Kept k a (k.keep a) := by
  -- the place of a question is the only one with its key
  have only : ∀ s ∈ k.slots, s.key = a.key → k.slots.find? (fun s => s.key == a.key) = some s := by
    intro s member key
    obtain ⟨t, found⟩ := Option.isSome_iff_exists.mp
      (List.find?_isSome (p := fun s => s.key == a.key).mpr ⟨s, member, by simpa using key⟩)
    have key' : t.key = a.key := by simpa using List.find?_some found
    rw [found, List.inj_on_of_nodup_map h.keys (List.mem_of_find?_eq_some found) member
      (key'.trans key.symm)]
  unfold Strings.keep
  dsimp only
  split
  next s fits =>
    obtain ⟨found, fits⟩ := Option.filter_eq_some_iff.mp fits
    have member := List.mem_of_find?_eq_some found
    have key : s.key = a.key := by simpa using List.find?_some found
    have room := h.below s (h.kept s member)
    have used := h.used
    have pool := h.pool
    have fits : a.bytes.length ≤ s.capacity := by simpa using fits
    split
    next same =>
      refine @Kept.rewritten k a s k.pool member key fits ⟨rfl, fun i below => ?_, fun _ _ => rfl⟩
      rw [← same, List.getElem?_take_of_lt (by rwa [← same] at below ⊢), List.getElem?_drop]
    · exact .rewritten member key fits (.patch (by omega))
  next none_ =>
    have small : ∀ s ∈ k.slots, s.key = a.key → s.capacity < a.bytes.length := by
      intro s member key
      rw [only s member key] at none_
      simpa [Option.filter] using none_
    split
    · exact .refused small
    next room =>
      have pool := h.pool
      have used := h.used
      split
      · exact .refused small
      · have moved := @modify_findIdx _ _ _ StringSlot.key a.key
          (fun _ => ⟨a.key, k.used, a.bytes.length⟩) _ h.keys
        refine .placed small (fun s => ?_) ?_ (by omega) (.patch (by omega)) <;> split
        next fresh =>
          have absent : ∀ s ∈ k.slots, s.key ≠ a.key := by simpa using fresh
          rw [List.mem_append, List.mem_singleton, or_comm]
          exact or_congr_right ⟨fun member => ⟨member, absent s member⟩, And.left⟩
        next there =>
          obtain ⟨t, member, key⟩ : ∃ t ∈ k.slots, t.key = a.key := by simpa using there
          rw [moved, List.mem_map]
          constructor
          · rintro ⟨u, inside, rfl⟩
            split
            · exact .inl rfl
            next other => exact .inr ⟨inside, other⟩
          · rintro (rfl | ⟨inside, other⟩)
            · exact ⟨t, member, if_pos key⟩
            · exact ⟨s, inside, if_neg other⟩
        next fresh =>
          have absent : ∀ s ∈ k.slots, s.key ≠ a.key := by simpa using fresh
          rw [List.map_append, List.nodup_append]
          refine ⟨h.keys, by simp, fun key member other new same => ?_⟩
          obtain ⟨s, inside, rfl⟩ := List.mem_map.mp member
          exact absent s inside (same.trans (List.mem_singleton.mp new))
        next there =>
          have same : (k.slots.modify (k.slots.findIdx fun s => s.key == a.key) fun _ =>
              ⟨a.key, k.used, a.bytes.length⟩).map StringSlot.key =
              k.slots.map StringSlot.key := by
            rw [moved, List.map_map]
            refine List.map_congr_left fun s _ => ?_
            rw [Function.comp_apply]
            split
            next key => exact key.symm
            · rfl
          rw [same]
          exact h.keys

/-! ## All calls -/

/-- Places of different questions, or at different offsets, are apart. -/
theorem Sound.reads_rewritten {s : StringSlot} (member : s ∈ places) {a : Ask}
    (fits : a.bytes.length ≤ s.capacity) {pool : Bytes}
    (written : Written k.pool pool s.offset a.bytes) {key : Question} {off : Nat}
    (other : ¬ (s.key = key ∧ s.offset = off)) {e : Ask × Option Nat}
    (found : answers.find? (fun e => e.1.key = key ∧ e.2 = some off) = some e) :
    Has pool off e.1.bytes := by
  obtain ⟨rfl, answer⟩ : e.1.key = key ∧ e.2 = some off := by simpa using List.find?_some found
  obtain ⟨p, place, asked, rfl, room⟩ := h.answered e (List.mem_of_find?_eq_some found) off answer
  have apart := h.apart p place s member fun same => other (same ▸ ⟨asked, rfl⟩)
  exact written.keeps (h.reads _ _ e found) (by omega)

theorem Sound.rewritten {s : StringSlot} (member : s ∈ k.slots) {a : Ask} (key : s.key = a.key)
    (fits : a.bytes.length ≤ s.capacity) {pool : Bytes}
    (written : Written k.pool pool s.offset a.bytes) :
    Sound ((a, some s.offset) :: answers) { k with pool } places := by
  have place := h.kept s member
  refine { h with
    pool := written.length.trans h.pool
    answered := List.forall_mem_cons.mpr ⟨fun off is => ?_, h.answered⟩
    reads := fun key' off e found => ?_
    newest := fun t inside => ?_
    slotted := List.forall_mem_cons.mpr ⟨fun _ => ⟨s, member, key⟩, h.slotted⟩
    sized := fun t inside => (h.sized t inside).imp fun e => And.imp_left (.tail _) }
  · exact ⟨s, place, key, Option.some.inj is, fits⟩
  · by_cases here : a.key = key' ∧ s.offset = off
    · rw [List.find?_cons_of_pos (by simpa using here)] at found
      obtain rfl := Option.some.inj found
      exact here.2 ▸ written.has
    · rw [List.find?_cons_of_neg (by simpa using here)] at found
      exact h.reads_rewritten place fits written (key ▸ here) found
  · by_cases same : a.key = t.key
    · obtain rfl := List.inj_on_of_nodup_map h.keys inside member (same.symm.trans key.symm)
      exact ⟨_, List.find?_cons_of_pos (by simpa using same), rfl⟩
    · rw [List.find?_cons_of_neg (by simp [same])]
      exact h.newest t inside

theorem Sound.placed {a : Ask} {slots : List StringSlot}
    (members : ∀ s, s ∈ slots ↔ s = ⟨a.key, k.used, a.bytes.length⟩ ∨ s ∈ k.slots ∧ s.key ≠ a.key)
    (keys : (slots.map StringSlot.key).Nodup) (room : k.used + a.bytes.length ≤ poolSize)
    {pool : Bytes} (written : Written k.pool pool k.used a.bytes) :
    Sound ((a, some k.used) :: answers) ⟨slots, k.used + a.bytes.length, pool⟩
      (insert ⟨a.key, k.used, a.bytes.length⟩ places) := by
  have below := h.below
  refine ⟨written.length.trans h.pool, room, keys, fun s inside => ?_, ?_, ?_, ?_, ?_, ?_, ?_, ?_⟩
  · exact ((members s).mp inside).imp_right fun old => h.kept s old.1
  · rintro p (rfl | old)
    · exact le_rfl
    · exact (below p old).trans (Nat.le_add_right _ _)
  · rintro p (rfl | old) q (rfl | old') differ
    · exact absurd rfl differ
    · exact .inr (below q old')
    · exact .inl (below p old)
    · exact h.apart p old q old' differ
  · refine List.forall_mem_cons.mpr ⟨fun off is => ?_, fun e member off is => ?_⟩
    · exact ⟨_, .inl rfl, rfl, Option.some.inj is, le_rfl⟩
    · obtain ⟨p, place, rest⟩ := h.answered e member off is
      exact ⟨p, .inr place, rest⟩
  · intro key off e found
    by_cases here : a.key = key ∧ k.used = off
    · rw [List.find?_cons_of_pos (by simpa using here)] at found
      obtain rfl := Option.some.inj found
      exact here.2 ▸ written.has
    · rw [List.find?_cons_of_neg (by simpa using here)] at found
      obtain ⟨-, answer⟩ : e.1.key = key ∧ e.2 = some off := by simpa using List.find?_some found
      obtain ⟨p, place, -, rfl, fits⟩ := h.answered e (List.mem_of_find?_eq_some found) off answer
      have lower := below p place
      exact written.keeps (h.reads key _ e found) (by omega)
  · intro s inside
    obtain rfl | ⟨old, other⟩ := (members s).mp inside
    · exact ⟨_, List.find?_cons_of_pos (by simp), rfl⟩
    · rw [List.find?_cons_of_neg (by simp [Ne.symm other])]
      exact h.newest s old
  · refine List.forall_mem_cons.mpr ⟨fun _ => ⟨_, (members _).mpr (.inl rfl), rfl⟩, ?_⟩
    intro e member answer
    obtain ⟨s, old, key⟩ := h.slotted e member answer
    by_cases same : s.key = a.key
    · exact ⟨_, (members _).mpr (.inl rfl), same.symm.trans key⟩
    · exact ⟨s, (members s).mpr (.inr ⟨old, same⟩), key⟩
  · intro s inside
    obtain rfl | ⟨old, -⟩ := (members s).mp inside
    · exact ⟨_, .head _, rfl, rfl, rfl⟩
    · exact (h.sized s old).imp fun e => And.imp_left (.tail _)

theorem Sound.call (a : Ask) : ∃ more, Sound ((a, (k.keep a).1) :: answers) (k.keep a).2 more := by
  have kept := h.keep a
  generalize k.keep a = r at kept ⊢
  cases kept with
  | refused =>
    refine ⟨places, { h with
      answered := List.forall_mem_cons.mpr ⟨fun _ is => by simp at is, h.answered⟩
      reads := fun key off e found => ?_
      newest := fun s inside => ?_
      slotted := List.forall_mem_cons.mpr ⟨fun some_ => by simp at some_, h.slotted⟩
      sized := fun s inside => (h.sized s inside).imp fun e => And.imp_left (.tail _) }⟩
    · rw [List.find?_cons_of_neg (by simp)] at found
      exact h.reads key off e found
    · rw [List.find?_cons_of_neg (by simp)]
      exact h.newest s inside
  | rewritten member key fits written => exact ⟨places, h.rewritten member key fits written⟩
  | placed _ members keys room written => exact ⟨_, h.placed members keys room written⟩

/-- The slot of a question holds every string that was answered with its place. -/
theorem Sound.slot_capacity {s : StringSlot} (member : s ∈ k.slots) {e : Ask × Option Nat}
    (listed : e ∈ answers) (answer : e.2 = some s.offset) : e.1.bytes.length ≤ s.capacity := by
  obtain ⟨p, place, -, offset, room⟩ := h.answered e listed s.offset answer
  obtain ⟨f, -, -, -, size⟩ := h.sized s member
  have some_ : 0 < s.capacity := size ▸ by simp [Ask.bytes]
  have long : 0 < e.1.bytes.length := by simp [Ask.bytes]
  by_cases same : p = s
  · exact same ▸ room
  · have apart := h.apart p place s (h.kept s member) same
    omega

/-- A question whose place has held as long a string is answered with it, and no other. -/
theorem Sound.keep_same {a : Ask} {e : Ask × Option Nat}
    (newest : answers.find? (fun e => e.1.key = a.key ∧ e.2.isSome) = some e) :
    (k.keep a).1 = e.2 ↔ ∃ f ∈ answers, f.1.key = a.key ∧ f.2 = e.2 ∧
      a.bytes.length ≤ f.1.bytes.length := by
  obtain ⟨asked, answered⟩ : e.1.key = a.key ∧ e.2.isSome = true := by
    simpa using List.find?_some newest
  obtain ⟨s, member, key⟩ := h.slotted e (List.mem_of_find?_eq_some newest) answered
  have key : s.key = a.key := key.trans asked
  obtain ⟨e', found, place⟩ := h.newest s member
  rw [key, newest] at found
  obtain rfl := Option.some.inj found
  rw [place]
  have kept := h.keep a
  generalize k.keep a = r at kept ⊢
  constructor
  · intro same
    obtain ⟨f, listed, asked, answer, size⟩ := h.sized s member
    refine ⟨f, listed, asked.trans key, answer, ?_⟩
    cases kept with
    | refused => cases same
    | rewritten member' key' fits =>
      obtain rfl := List.inj_on_of_nodup_map h.keys member' member (key'.trans key.symm)
      exact size ▸ fits
    | placed small =>
      have below := h.below s (h.kept s member)
      have long : 0 < f.1.bytes.length := by simp [Ask.bytes]
      have same := Option.some.inj same
      omega
  · rintro ⟨f, listed, -, answer, longer⟩
    have fits := longer.trans (h.slot_capacity member listed answer)
    cases kept with
    | refused small => exact absurd (small s member key) (Nat.not_lt.mpr fits)
    | rewritten member' key' =>
      rw [List.inj_on_of_nodup_map h.keys member' member (key'.trans key.symm)]
    | placed small => exact absurd (small s member key) (Nat.not_lt.mpr fits)

end

theorem Strings.after_sound (calls : List Ask) :
    ∃ places, Sound (after calls).1 (after calls).2 places := by
  induction calls with
  | nil => exact ⟨∅, by constructor <;> simp [after]⟩
  | cons a earlier ih =>
    obtain ⟨places, sound⟩ := ih
    exact sound.call a

/-- After any calls, newest first, another one: its answer is a place in the pool that holds the
string; answers to different questions are apart; whatever was answered still reads what was last
given there; a question that was answered before is answered with the same place just if a string
as long was put there; and a null answer changes nothing. -/
theorem Strings.keep_keeps (calls : List Ask) (a : Ask) :
    let k := (after calls).2
    let answers := (after (a :: calls)).1
    (∀ off, (k.keep a).1 = some off →
      off + a.bytes.length ≤ poolSize ∧ Has (k.keep a).2.pool off a.bytes) ∧
    (∀ e ∈ answers, ∀ f ∈ answers, e.1.key ≠ f.1.key → ∀ i j, e.2 = some i → f.2 = some j →
      i + e.1.bytes.length ≤ j ∨ j + f.1.bytes.length ≤ i) ∧
    (∀ key off e, answers.find? (fun e => e.1.key = key ∧ e.2 = some off) = some e →
      Has (k.keep a).2.pool off e.1.bytes) ∧
    (∀ e, (after calls).1.find? (fun e => e.1.key = a.key ∧ e.2.isSome) = some e →
      ((k.keep a).1 = e.2 ↔ ∃ f ∈ (after calls).1, f.1.key = a.key ∧ f.2 = e.2 ∧
        a.bytes.length ≤ f.1.bytes.length)) ∧
    ((k.keep a).1 = none → (k.keep a).2 = k) := by
  obtain ⟨places, sound⟩ := after_sound (a :: calls)
  obtain ⟨earlier, before⟩ := after_sound calls
  refine ⟨fun off is => ?_, fun e left f right differ i j at_ at' => ?_, sound.reads,
    fun e => before.keep_same, ?_⟩
  · have head : (after (a :: calls)).1 = (a, some off) :: (after calls).1 := by
      rw [← is]
      rfl
    have has := sound.reads a.key off (a, some off) (by
      rw [head]
      exact List.find?_cons_of_pos (by simp))
    have inside := has.inside (List.ne_nil_of_length_pos (by simp [Ask.bytes]))
    rw [sound.pool] at inside
    exact ⟨inside, has⟩
  · obtain ⟨p, place, asked, rfl, room⟩ := sound.answered e left i at_
    obtain ⟨q, place', asked', rfl, room'⟩ := sound.answered f right j at'
    have apart := sound.apart p place q place' fun same => differ (by rw [← asked, ← asked', same])
    omega
  · have kept := before.keep a
    generalize (after calls).2.keep a = r at kept ⊢
    cases kept with
    | refused => exact fun _ => rfl
    | rewritten => exact fun none_ => by simp at none_
    | placed => exact fun none_ => by simp at none_

end MiniBox.Gl

