import MiniBox.Host.Files
import MiniBox.Lib.Ring

/-!
# The guest's last words

What the guest writes to its two output streams goes into a ring of 16 KiB, which the host
reads back when the guest dies.  The cells, the place of the next byte and the flag are related
to everything ever written: the history goes round the ring from a place that is its start until
a write as long as the ring fills it anew (`OutputRing.Keeps`).

The number of bytes written is a 64-bit counter, and `mb_fs_sysout_since` subtracts a mark from
it: the result below is about the counter, which is the length of the history as long as that
fits it.
-/

namespace MiniBox

open Lib

/-- The ring after a history of writes. -/
structure OutputRing.Keeps (r : OutputRing) (history : Bytes) : Prop where
  size : r.tail.length = ringSize
  total : r.total = UInt64.ofNat history.length
  place : ∃ shift, Holds r.tail shift history ∧ r.at_ = (history.length + shift) % ringSize ∧
    if r.wrapped then ringSize ≤ history.length else shift = 0 ∧ history.length < ringSize

namespace OutputRing.Keeps

variable {r : OutputRing} {history : Bytes}

theorem new : ({} : OutputRing).Keeps [] :=
  ⟨List.length_replicate, rfl, 0, .nil, rfl, rfl, by decide⟩

/-- A write as long as the ring fills it anew, whatever was in it. -/
theorem fill (size : r.tail.length = ringSize) {buf : Bytes} (long : ringSize ≤ buf.length) :
    ∃ shift, Holds (patch r.tail 0 (buf.drop (buf.length - ringSize))) shift (history ++ buf) ∧
      0 = ((history ++ buf).length + shift) % ringSize := by
  have piece : (buf.drop (buf.length - ringSize)).length = ringSize := by
    rw [List.length_drop]
    omega
  have filled : patch r.tail 0 (buf.drop (buf.length - ringSize)) = buf.drop
      (buf.length - ringSize) := by
    rw [patch, piece, Nat.zero_add, ← size, List.drop_length, List.take_zero,
      List.nil_append, List.append_nil]
  generalize is_before : history ++ buf.take (buf.length - ringSize) = before
  have whole : history ++ buf = before ++ buf.drop (buf.length - ringSize) := by
    rw [← is_before, List.append_assoc, List.take_append_drop]
  have aligned : (before.length + before.length * (ringSize - 1)) % ringSize = 0 := by
    rw [Nat.add_comm, ← Nat.mul_succ]
    exact Nat.mul_mod_left _ _
  refine ⟨before.length * (ringSize - 1), ?_, ?_⟩
  · rw [filled, whole]
    refine .whole ?_
    rw [piece]
    exact aligned
  · rw [whole, List.length_append, piece, Nat.add_right_comm, Nat.add_mod_right, aligned]

/-- A write goes on where the last one ended. -/
theorem remember (keeps : r.Keeps history) (buf : Bytes) :
    (r.remember buf).Keeps (history ++ buf) := by
  obtain ⟨size, total, shift, holds, next, lap⟩ := keeps
  have sum : r.total + UInt64.ofNat buf.length = UInt64.ofNat (history ++ buf).length := by
    rw [total, List.length_append, UInt64.ofNat_add]
  have inside : r.at_ < ringSize := next ▸ Nat.mod_lt _ (by decide)
  have grown : (history ++ buf).length = history.length + buf.length := List.length_append
  unfold OutputRing.remember
  dsimp only
  by_cases long : ringSize ≤ buf.length
  · rw [if_pos long]
    obtain ⟨shift, holds, place⟩ := @fill r history size buf long
    have piece : (buf.drop (buf.length - ringSize)).length = ringSize := by
      rw [List.length_drop]
      omega
    refine ⟨?_, sum, shift, holds, place, ?_⟩
    · exact (patch_length (by rw [piece, size]; omega)).trans size
    · show ringSize ≤ _
      omega
  · rw [if_neg long]
    generalize is_first : min (ringSize - r.at_) buf.length = first
    have cut : (buf.take first).length = first := by
      rw [List.length_take]
      omega
    have fits : r.at_ + (buf.take first).length ≤ r.tail.length := by
      rw [cut, size]
      omega
    have length : (patch r.tail r.at_ (buf.take first)).length = ringSize :=
        (patch_length fits).trans size
    have reached : Holds (patch r.tail r.at_ (buf.take first)) shift (history ++ buf.take first) :=
      holds.patch (size.symm ▸ next) (by omega) fits
    have after : (r.at_ + first) % ringSize = (history.length + first + shift) % ringSize := by
      rw [next, Nat.mod_add_mod, Nat.add_right_comm]
    have lapped : ringSize ≤ r.at_ + first → ringSize ≤ (history ++ buf).length := by
      intro end_
      cases wrapped : r.wrapped with
      | true =>
        rw [wrapped, if_pos rfl] at lap
        omega
      | false =>
        rw [wrapped, if_neg (by decide)] at lap
        rw [lap.1, Nat.add_zero, Nat.mod_eq_of_lt lap.2] at next
        omega
    split_ifs with round full
    · -- the end of the ring is reached, and the rest goes to its start
      have end_ : r.at_ + first = ringSize := by omega
      rw [end_, Nat.mod_self] at after
      have rest : (buf.drop first).length = buf.length - first := List.length_drop
      have fits : 0 + (buf.drop first).length ≤ (patch r.tail r.at_ (buf.take first)).length := by
        rw [length]
        omega
      have holds := @Holds.patch _ _ (buf.drop first) shift 0 reached
        (by rw [List.length_append, cut]; exact length.symm ▸ after) (by omega) fits
      rw [List.append_assoc, List.take_append_drop] at holds
      refine ⟨(patch_length fits).trans length, sum, shift, holds, ?_, lapped (by omega)⟩
      have place := @add_mod_cases (history.length + first + shift) (buf.length - first) ringSize
        (by decide) (by omega)
      rw [← after, if_pos (by omega), Nat.zero_add, Nat.add_right_comm,
        Nat.add_assoc history.length, Nat.add_sub_cancel' round.le] at place
      rw [grown]
      exact place.symm
    · obtain rfl : first = buf.length := by omega
      rw [List.take_length] at reached length ⊢
      rw [full, Nat.mod_self] at after
      refine ⟨length, sum, shift, reached, ?_, lapped (by omega)⟩
      rw [grown]
      exact after
    · obtain rfl : first = buf.length := by omega
      rw [List.take_length] at reached length ⊢
      rw [Nat.mod_eq_of_lt (by omega)] at after
      refine ⟨length, sum, shift, reached, ?_, ?_⟩
      · rw [grown]
        exact after
      · show if r.wrapped then _ else _
        split_ifs at lap ⊢
        · omega
        · rw [lap.1, Nat.add_zero, Nat.mod_eq_of_lt lap.2] at next
          exact ⟨lap.1, by omega⟩

/-- `mb_fs_sysout_tail`. -/
theorem newest (keeps : r.Keeps history) (cap : Nat) :
    r.newest cap = history.rtake (min cap (min ringSize history.length)) := by
  obtain ⟨size, -, shift, holds, next, lap⟩ := keeps
  unfold OutputRing.newest
  dsimp only
  cases wrapped : r.wrapped with
  | true =>
    rw [wrapped, if_pos rfl] at lap
    rw [if_pos rfl, if_pos rfl, Nat.min_eq_left lap, Nat.min_comm cap,
      ← holds.read (by omega) (by omega), size]
    refine List.map_congr_left fun i inside => ?_
    -- the oldest byte is one round before the next
    have round : history.length + shift + (ringSize - min ringSize cap) + i =
        history.length - min ringSize cap + i + shift + ringSize := by omega
    rw [next, Nat.add_assoc, Nat.mod_add_mod, ← Nat.add_assoc, round, Nat.add_mod_right]
  | false =>
    rw [wrapped, if_neg (by decide)] at lap
    rw [lap.1, Nat.add_zero, Nat.mod_eq_of_lt lap.2] at next
    rw [if_neg (by decide), if_neg (by decide), Nat.min_eq_right lap.2.le, Nat.min_comm cap, next,
      ← holds.read (by omega) (by omega), size, lap.1]
    refine List.map_congr_left fun i inside => ?_
    rw [Nat.zero_add, Nat.add_zero]

/-- `mb_fs_sysout_since`. -/
theorem since (keeps : r.Keeps history) (mark : UInt64) (cap : Nat) :
    r.since mark cap = history.rtake (min cap (min ringSize (r.total.toNat - mark.toNat))) := by
  unfold OutputRing.since
  have counted : r.total.toNat ≤ history.length := by
    rw [keeps.total, UInt64.toNat_ofNat']
    exact Nat.mod_le _ _
  split_ifs with late
  · rw [Nat.sub_eq_zero_of_le (UInt64.le_iff_toNat_le.mp late), Nat.min_zero, Nat.min_zero]
    exact (List.rtake_zero _).symm
  · have past : mark ≤ r.total := by simpa using UInt64.le_of_lt (by simpa using late)
    rw [keeps.newest, UInt64.toNat_sub_of_le _ _ past]
    congr 1
    omega

end OutputRing.Keeps

/-! ## Runs -/

namespace Files

/-- A descriptor of one of the two output streams. -/
def Streams (fs : Files) (fd : Int32) : Prop := ∃ h f, fs.opened fd = some (h, f) ∧ f.kind = .sysout

/-- Writes, one after the other. -/
def writes (fs : Files) : List (Int32 × Bytes) → Files
  | [] => fs
  | (fd, buf) :: rest => (fs.write fd buf).2.writes rest

variable {fs : Files}

theorem Streams.write {fd : Int32} (streams : fs.Streams fd) (buf : Bytes) :
    (fs.write fd buf).2 = { fs with output := fs.output.remember buf } := by
  obtain ⟨h, f, opened, sysout⟩ := streams
  unfold Files.write
  rw [opened]
  dsimp only
  rw [if_pos sysout]

theorem writes_keeps : ∀ (ws : List (Int32 × Bytes)) {fs : Files} {history : Bytes},
    fs.output.Keeps history → (∀ w ∈ ws, fs.Streams w.1) →
    (fs.writes ws).output.Keeps (history ++ ws.flatMap Prod.snd)
  | [], fs, history, keeps, _ => by
    rw [List.flatMap_nil, List.append_nil]
    exact keeps
  | (fd, buf) :: rest, fs, history, keeps, streams => by
    have here := (streams _ (List.mem_cons_self ..)).write buf
    rw [List.flatMap_cons, ← List.append_assoc, writes, here]
    exact writes_keeps rest (keeps.remember buf) fun w later =>
      streams w (List.mem_cons_of_mem _ later)

/-- The ring gives back the newest of all that was written to the two streams, oldest first:
as much of it as is asked for, the ring holds and was written; and since a mark, as much as the
counter is past it. -/
theorem writes_newest (fresh : fs.output = {}) (ws : List (Int32 × Bytes))
    (streams : ∀ w ∈ ws, fs.Streams w.1) :
    (∀ cap, (fs.writes ws).output.newest cap =
      (ws.flatMap Prod.snd).rtake (min cap (min ringSize (ws.flatMap Prod.snd).length))) ∧
    (∀ mark cap, (fs.writes ws).output.since mark cap = (ws.flatMap Prod.snd).rtake
      (min cap (min ringSize ((fs.writes ws).output.total.toNat - mark.toNat)))) ∧
    (fs.writes ws).output.total = UInt64.ofNat (ws.flatMap Prod.snd).length := by
  have before : fs.output.Keeps [] := by
    rw [fresh]
    exact .new
  have keeps : (fs.writes ws).output.Keeps (ws.flatMap Prod.snd) := writes_keeps ws before streams
  exact ⟨keeps.newest, keeps.since, keeps.total⟩

/-- Two bytes short of the ring's end go to one stream and "bcd" to the other, which goes round
the end: the last four bytes, and what came after the first 16383. -/
theorem writes_newest_two :
    (new.writes [(1, List.replicate 16382 0x61), (2, [0x62, 0x63, 0x64])]).output.newest 4 =
        [0x61, 0x62, 0x63, 0x64] ∧
      (new.writes [(1, List.replicate 16382 0x61), (2, [0x62, 0x63, 0x64])]).output.since 16383 9 =
        [0x63, 0x64] := by
  have streams : ∀ w ∈ [((1 : Int32), (List.replicate 16382 0x61 : Bytes)),
      (2, [0x62, 0x63, 0x64])], new.Streams w.1 := by
    intro w member
    rcases List.mem_cons.mp member with rfl | member
    · exact ⟨_, _, rfl, rfl⟩
    · rw [List.mem_singleton.mp member]
      exact ⟨_, _, rfl, rfl⟩
  obtain ⟨newest, since, total⟩ := writes_newest rfl _ streams
  have length : (List.replicate 16382 (0x61 : UInt8) ++ [0x62, 0x63, 0x64]).length = 16385 := by
    rw [List.length_append, List.length_replicate]
    rfl
  rw [newest, since, total, List.flatMap_cons, List.flatMap_cons, List.flatMap_nil, List.append_nil,
    List.rtake, List.rtake, length, List.drop_append, List.drop_append, List.length_replicate,
    List.drop_replicate, List.drop_replicate]
  decide

end Files

end MiniBox
