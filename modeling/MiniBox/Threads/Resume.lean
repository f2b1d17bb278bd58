import MiniBox.Lib.Simulation
import MiniBox.Threads.Wake

/-!
# A loaded set goes on as the saved one

A save leaves out the marks that order timed waits, and a load starts from none.  Marks
decide only in which order `expire_due` takes the threads that are due, and every order
leaves the same set: `Threads.timeout` is what one pass over the arrays leaves, and it does
not read them.  So two sets that differ in their marks, and before spec 3 in a clock nobody
reads, agree on every operation, and stay such sets.
-/

namespace MiniBox

open Lib

/-! ## Expiry does not read the marks -/

/-- Every thread with its deadline. -/
def Threads.timed (t : Threads) : List (GThread × UInt64) := t.threads.zip t.deadlines

/-- What one pass over the arrays leaves that times out the threads `ended` picks. -/
def Threads.timeout (t : Threads) (ended : GThread × UInt64 → Bool) : Threads :=
  { t with
    threads := t.timed.map fun p => if ended p then p.1.timedOut else p.1
    deadlines := t.timed.map fun p => if ended p then 0 else p.2
    futicies :=
      if t.timed.any ended then
        t.futicies.without fun tid => t.timed.any fun p => ended p && p.1.tid == tid
      else t.futicies }

section Expiry

variable {t t' : Threads} {rows : List Row}

theorem Threads.Lists.timed (lists : t.Lists rows) :
    t.timed = rows.map fun r => (r.thread, r.deadline) := by
  rw [Threads.timed, lists.threads, lists.deadlines, List.zip_map', List.map_inj_left]
  intros
  rfl

theorem Row.expire_thread (clock : UInt64) (r : Row) : (r.expire clock).thread =
    if Threads.due clock r.thread r.deadline then r.thread.timedOut else r.thread := by
  rw [expire, apply_ite thread]
  rfl

theorem Row.expire_deadline (clock : UInt64) (r : Row) : (r.expire clock).deadline =
    if Threads.due clock r.thread r.deadline then 0 else r.deadline := by
  rw [expire, apply_ite deadline]
  rfl

theorem Threads.Expired.timeout (lists : t.Lists rows) (expired : t.Expired rows t') :
    t' = { t.timeout (fun p => Threads.due t.vclockNs p.1 p.2) with seqs := t'.seqs } := by
  have threads : t'.threads = t.timed.map fun p =>
      if Threads.due t.vclockNs p.1 p.2 then p.1.timedOut else p.1 := by
    rw [expired.lists.threads, lists.timed, List.map_map, List.map_map]
    exact List.map_congr_left fun r _ => r.expire_thread _
  have deadlines : t'.deadlines = t.timed.map fun p =>
      if Threads.due t.vclockNs p.1 p.2 then 0 else p.2 := by
    rw [expired.lists.deadlines, lists.timed, List.map_map, List.map_map]
    exact List.map_congr_left fun r _ => r.expire_deadline _
  have futicies : t'.futicies =
      (t.timeout fun p => Threads.due t.vclockNs p.1 p.2).futicies := by
    rw [expired.futicies, Threads.timeout, lists.timed]
    simp only [List.any_map]
    rfl
  rw [expired.rest, threads, deadlines, futicies]
  rfl

theorem Threads.expireDue_timeout (deadlines : t.deadlines.length = t.threads.length)
    (seqs : t.seqs.length = t.threads.length) : ∃ marks, marks.length = t.threads.length ∧
      t.expireDue = { t.timeout (fun p => due t.vclockNs p.1 p.2) with seqs := marks } := by
  have lists := lists_rows deadlines seqs
  refine ⟨t.expireDue.seqs, ?_, lists.expireDue.timeout lists⟩
  rw [lists.expireDue.lists.seqs, lists.threads]
  simp only [List.length_map]

theorem Threads.timeout_congr {ended ended' : GThread × UInt64 → Bool}
    (same : ∀ p ∈ t.timed, ended p = ended' p) : t.timeout ended = t.timeout ended' := by
  have any : ∀ f : GThread × UInt64 → Bool,
      (t.timed.any fun p => ended p && f p) = t.timed.any fun p => ended' p && f p := fun f => by
    rw [Bool.eq_iff_iff, List.any_eq_true, List.any_eq_true]
    refine exists_congr fun p => and_congr_right fun member => ?_
    rw [same p member]
  have any_ended : t.timed.any ended = t.timed.any ended' := by simpa using any fun _ => true
  unfold timeout
  rw [List.map_congr_left fun p member => by rw [same p member],
    List.map_congr_left (f := fun p => if ended p then 0 else p.2) fun p member => by
      rw [same p member], any_ended]
  simp only [any]

end Expiry

/-! ## Sets alike -/

/-- A set with other marks and, before spec 3, another clock. -/
inductive Threads.Alike (t : Threads) : Threads → Prop where
  | mk {seqs : List UInt64} {parkSeq clock : UInt64}
      (deadlines : t.deadlines.length = t.threads.length)
      (left : t.seqs.length = t.threads.length) (right : seqs.length = t.threads.length)
      (now : t.spec = 3 → clock = t.vclockNs) (untimed : t.spec ≠ 3 → ∀ d ∈ t.deadlines, d = 0) :
      t.Alike { t with seqs, parkSeq, vclockNs := clock }

section Sets

/-- The registers are the same, the sets alike. -/
def Scheduled (x y : Threads × Context) : Prop := x.1.Alike y.1 ∧ y.2 = x.2

/-- What is left of the stream and the registers are the same, the sets alike. -/
def Loaded (x y : Option Bytes × Threads × Context) : Prop := y.1 = x.1 ∧ Scheduled x.2 y.2

theorem Threads.loadDeadlines_length : ∀ (deadlines : List UInt64) (stream : Bytes),
    (loadDeadlines deadlines stream).2.length = deadlines.length
  | [], _ => rfl
  | d :: deadlines, stream => by
    rw [loadDeadlines]
    cases rd64 stream with
    | none => rfl
    | some read => exact congrArg (· + 1) (loadDeadlines_length deadlines read.2)

variable {t u : Threads}

namespace Threads.Alike

section

variable (alike : t.Alike u)
include alike

theorem spec : u.spec = t.spec := by
  cases alike
  rfl

theorem clockNs (v3 : t.spec = 3) : u.vclockNs = t.vclockNs := by
  cases alike with
  | mk _ _ _ now _ => exact now v3

theorem activeTid : u.activeTid = t.activeTid := by
  cases alike
  rfl

theorem findThread (tid : UInt32) : u.findThread tid = t.findThread tid := by
  cases alike
  rfl

/-- A change to the threads that keeps their number, to the queues or to the ids. -/
theorem change {threads : List GThread}
    (length : threads.length = t.threads.length) (nextTid activeTid : UInt32)
    (futicies : Queues UInt64 UInt32) :
    Alike { t with threads, nextTid, activeTid, futicies }
      { u with threads, nextTid, activeTid, futicies } := by
  cases alike with
  | mk deadlines left right now untimed =>
    exact .mk (deadlines.trans length.symm) (left.trans length.symm) (right.trans length.symm) now
      untimed

theorem onThread (tid : UInt32) (f : GThread → GThread) :
    (t.onThread tid f).Alike (u.onThread tid f) := by
  have changed := alike.change (List.length_modify f t.threads (t.threadIndex tid)) t.nextTid
    t.activeTid t.futicies
  cases alike
  exact changed

theorem queues (f : Queues UInt64 UInt32 → Queues UInt64 UInt32) :
    Alike { t with futicies := f t.futicies } { u with futicies := f u.futicies } := by
  have changed := alike.change rfl t.nextTid t.activeTid (f t.futicies)
  cases alike
  exact changed

theorem setDeadline (i : Nat) (deadline : UInt64)
    (timed : t.spec = 3 ∨ deadline = 0) (seq seq' : UInt64) :
    (t.setDeadline i deadline seq).Alike (u.setDeadline i deadline seq') := by
  cases alike with
  | mk deadlines left right now untimed =>
    refine .mk (List.length_set.trans deadlines) (List.length_set.trans left)
      (List.length_set.trans right) now fun v2 d member => ?_
    rcases List.mem_or_eq_of_mem_set member with inside | rfl
    · exact untimed v2 d inside
    · exact timed.resolve_left v2

theorem insertThread (g : GThread) : (t.insertThread g).Alike (u.insertThread g) := by
  cases alike with
  | mk deadlines left right now untimed =>
    have place : t.insertIndex g.tid ≤ t.threads.length :=
      (List.dropWhile_sublist _).length_le.trans_eq List.length_reverse
    have longer : ∀ {xs : List UInt64}, xs.length = t.threads.length →
        (xs.insertIdx (t.insertIndex g.tid) 0).length =
          (t.threads.insertIdx (t.insertIndex g.tid) g).length := fun same => by
      rw [List.length_insertIdx_of_le_length (same ▸ place),
        List.length_insertIdx_of_le_length place,
        same]
    refine .mk (longer deadlines) (longer left) (longer right) now fun v2 d member => ?_
    rcases List.eq_or_mem_of_mem_insertIdx member with rfl | inside
    · rfl
    · exact untimed v2 d inside

theorem removeThread (tid : UInt32) : (t.removeThread tid).Alike (u.removeThread tid) := by
  cases alike with
  | mk deadlines left right now untimed =>
    have shorter : ∀ {xs : List UInt64}, xs.length = t.threads.length →
        (xs.eraseIdx (t.threadIndex tid)).length =
          (t.threads.eraseIdx (t.threadIndex tid)).length := fun same => by
      rw [List.length_eraseIdx, List.length_eraseIdx, same]
    exact .mk (shorter deadlines) (shorter left) (shorter right) now fun v2 d member =>
      untimed v2 d (List.mem_of_mem_eraseIdx member)

/-- Expiry leaves the same threads and queues, whatever order the marks give. -/
theorem expireDue : t.expireDue.Alike u.expireDue := by
  cases alike with
  | mk deadlines left right now untimed =>
    rename_i seqs parkSeq clock
    let u : Threads := { t with seqs, parkSeq, vclockNs := clock }
    obtain ⟨marks, length, eq⟩ := expireDue_timeout deadlines left
    obtain ⟨marks', length', eq'⟩ := expireDue_timeout (t := u) deadlines right
    have same : t.timeout (fun p => due clock p.1 p.2) =
        t.timeout fun p => due t.vclockNs p.1 p.2 := by
      refine timeout_congr fun p member => ?_
      by_cases v3 : t.spec = 3
      · rw [now v3]
      · have zero : p.2 = 0 := untimed v3 _ (List.of_mem_zip member).2
        simp [due, zero]
    have width : t.timed.length = t.threads.length := by
      rw [timed, List.length_zip, deadlines, Nat.min_self]
    have shape : { u.timeout (fun p => due clock p.1 p.2) with seqs := marks' } =
        { t.timeout (fun p => due t.vclockNs p.1 p.2) with
          seqs := marks', parkSeq, vclockNs := clock } := by
      rw [← same]
      rfl
    rw [eq, eq', shape]
    refine .mk ?_ ?_ ?_ now fun v2 d member => ?_
    · simp only [timeout, List.length_map]
    · simp only [timeout, List.length_map, width, length]
    · simp only [timeout, List.length_map, width]
      exact length'
    · obtain ⟨p, inside, rfl⟩ := List.mem_map.mp member
      split
      · rfl
      · exact untimed v2 _ (List.of_mem_zip inside).2

/-- Two sets with the clock moved. -/
theorem setClock {ns ns' : UInt64} (same : t.spec = 3 → ns' = ns) :
    Alike { t with vclockNs := ns } { u with vclockNs := ns' } := by
  cases alike with
  | mk deadlines left right _ untimed => exact .mk deadlines left right same untimed

theorem advance (ns : UInt64) : (t.advance ns).Alike (u.advance ns) := by
  refine (alike.setClock fun v3 => ?_).expireDue
  rw [alike.clockNs v3]
  cases alike
  rfl

theorem setParkSeq (seq seq' : UInt64) :
    Alike { t with parkSeq := seq } { u with parkSeq := seq' } := by
  cases alike with
  | mk deadlines left right now untimed => exact .mk deadlines left right now untimed

/-! ## Scheduling and waking -/

theorem store (c : Context) (ret : UInt64) : (t.store c ret).Alike (u.store c ret) := by
  rw [Threads.store, Threads.store, alike.activeTid]
  exact alike.onThread _ _

theorem swapTo (c : Context) (tid : UInt32) (ret : UInt64) :
    Agrees Scheduled (t.swapTo c tid ret) (u.swapTo c tid ret) := by
  have stored := alike.store c ret
  rw [Threads.swapTo, Threads.swapTo, alike.activeTid, alike.findThread, stored.findThread]
  split
  · refine .ok _ ⟨?_, rfl⟩
    have changed := stored.change rfl (t.store c ret).nextTid tid (t.store c ret).futicies
    cases alike
    exact changed
  · exact .error _

theorem fastForward : t.fastForward.Alike u.fastForward := by
  have same : u.earliest = t.earliest := by
    cases alike
    rfl
  rw [Threads.fastForward, Threads.fastForward, same]
  exact (alike.setClock fun _ => rfl).expireDue

omit alike in
theorem swapLoop (c : Context) : ∀ (fuel : Nat) {t u : Threads} (ret : UInt64),
    t.Alike u → Agrees Scheduled (Threads.swapLoop fuel t c ret) (Threads.swapLoop fuel u c ret)
  | 0, _, _, _, _ => .error _
  | fuel + 1, t, u, ret, alike => by
    have next : u.nextRunnable = t.nextRunnable := by
      cases alike
      rfl
    have stuck : (u.spec = 3 ∧ u.earliest ≠ 0) = (t.spec = 3 ∧ t.earliest ≠ 0) ∧
        u.threads = t.threads := by
      cases alike
      exact ⟨rfl, rfl⟩
    have ahead := alike.fastForward
    rw [Threads.swapLoop, Threads.swapLoop, next, alike.activeTid, alike.findThread]
    cases t.findThread t.activeTid with
    | none =>
      cases t.nextRunnable <;> exact .error _
    | some old =>
      cases t.nextRunnable with
      | some best =>
        simp only
        split
        · exact .ok _ ⟨alike, rfl⟩
        · exact alike.swapTo c best ret
      | none =>
        simp only [stuck]
        split
        · rw [ahead.activeTid, ahead.findThread]
          cases t.fastForward.findThread t.fastForward.activeTid with
          | none => exact .error _
          | some old => exact swapLoop c fuel old.rax ahead
        · exact .error _

theorem swapToNext (c : Context) (ret : UInt64) :
    Agrees Scheduled (t.swapToNext c ret) (u.swapToNext c ret) := by
  have stored := alike.store c ret
  have same : u.threads.length = t.threads.length := by
    cases alike
    rfl
  rw [Threads.swapToNext, Threads.swapToNext, same]
  exact Threads.Alike.swapLoop c _ ret stored

theorem park (addr : UInt64) (tid : UInt32) : (t.park addr tid).Alike (u.park addr tid) :=
  (alike.onThread tid _).queues fun futicies => futicies.extend addr [tid]

theorem wake (tid : UInt32) : (t.wake tid).Alike (u.wake tid) := by
  have index : u.threadIndex tid = t.threadIndex tid := by
    cases alike
    rfl
  rw [Threads.wake, Threads.wake, index]
  exact (alike.onThread tid _).setDeadline _ 0 (.inr rfl) 0 0

theorem unparkOne (addr : UInt64) :
    (u.unparkOne addr).1 = (t.unparkOne addr).1 ∧ (t.unparkOne addr).2.Alike
    (u.unparkOne addr).2 := by
  have queue : ((u.waiters addr).dropWhile fun tid => !u.isWaiting tid) =
      (t.waiters addr).dropWhile fun tid => !t.isWaiting tid := by
    cases alike
    rfl
  rw [Threads.unparkOne, Threads.unparkOne, queue]
  split
  · exact ⟨rfl, alike.queues fun futicies => futicies.put addr []⟩
  · rename_i tid rest _
    refine ⟨rfl, ?_⟩
    have woken := (alike.wake tid).queues fun futicies => futicies.put addr rest
    exact woken

omit alike in
theorem requeueLoop (source target : UInt64) : ∀ (left wake : Nat) {t u : Threads}, t.Alike u →
    (Threads.requeueLoop source target left wake u).1 =
        (Threads.requeueLoop source target left wake t).1 ∧
      (Threads.requeueLoop source target left wake t).2.Alike
        (Threads.requeueLoop source target left wake u).2
  | 0, _, _, _, alike => ⟨rfl, alike⟩
  | left + 1, wake, t, u, alike => by
    obtain ⟨same, next⟩ := alike.unparkOne source
    rw [Threads.requeueLoop, Threads.requeueLoop]
    generalize t.unparkOne source = x at same next
    generalize u.unparkOne source = y at same next
    obtain ⟨found, t'⟩ := x
    obtain ⟨found', u'⟩ := y
    cases same
    cases found with
    | none => exact ⟨rfl, next⟩
    | some one =>
      obtain ⟨tid, more⟩ := one
      have moved : (if wake = 0 then t'.park target tid else t').Alike
          (if wake = 0 then u'.park target tid else u') := by
        split
        · exact next.park target tid
        · exact next
      cases more with
      | false => exact ⟨rfl, moved⟩
      | true =>
        obtain ⟨count, rest⟩ := requeueLoop source target left (wake - 1) moved
        exact ⟨congrArg (· + 1) count, rest⟩

/-! ## Saving and loading -/

theorem save (c : Context) : (u.save c).1 = (t.save c).1 ∧ (t.save c).2.Alike (u.save c).2 := by
  have settled : (t.settle c).Alike (u.settle c) := alike.onThread 1 _
  have bytes : (u.settle c).encode c = (t.settle c).encode c := by
    cases alike with
    | mk _ _ _ now _ =>
      by_cases v3 : t.spec = 3
      · rw [now v3]
        rfl
      · have other : (t.settle c).spec ≠ 3 := v3
        unfold Threads.encode
        rw [if_neg other, if_neg other]
        simp only [Threads.settle, Threads.onThread, Threads.threadIndex, v3, if_false]
  rw [Threads.save, Threads.save, alike.activeTid, bytes]
  split
  · exact ⟨rfl, alike⟩
  · exact ⟨rfl, settled⟩

omit alike in
theorem loadThreads : ∀ (count : Nat) (stream : Bytes) {t u : Threads}, t.Alike u →
    (Threads.loadThreads count u stream).1 = (Threads.loadThreads count t stream).1 ∧
      (Threads.loadThreads count t stream).2.Alike (Threads.loadThreads count u stream).2
  | 0, _, _, _, alike => ⟨rfl, alike⟩
  | count + 1, stream, t, u, alike => by
    rw [Threads.loadThreads, Threads.loadThreads]
    cases GThread.read stream with
    | none => exact ⟨rfl, alike⟩
    | some read => exact loadThreads count read.2 (alike.insertThread read.1)

theorem loadTail (c : Context) (header : UInt16 × UInt32 × UInt64)
    (stream : Bytes) : Loaded (t.loadTail c header stream) (u.loadTail c header stream) := by
  rw [Threads.loadTail, Threads.loadTail, alike.findThread, alike.spec]
  cases rd 14 stream with
  | none => exact ⟨rfl, alike, rfl⟩
  | some read =>
    simp only
    split
    · exact ⟨rfl, alike, rfl⟩
    · cases t.findThread 1 with
      | none => exact ⟨rfl, alike, rfl⟩
      | some main =>
        simp only
        split
        · rename_i v3
          cases alike with
          | mk deadlines left right _ _ =>
            exact ⟨rfl, .mk ((Threads.loadDeadlines_length _ _).trans deadlines) left right
              (fun _ => rfl) (absurd v3), rfl⟩
        · exact ⟨rfl, alike, rfl⟩

theorem loadBody (c : Context) (header : UInt16 × UInt32 × UInt64)
    (stream : Bytes) : Loaded (t.loadBody c header stream) (u.loadBody c header stream) := by
  rw [Threads.loadBody, Threads.loadBody]
  cases rd32 stream with
  | none => exact ⟨rfl, alike, rfl⟩
  | some read =>
    have cleared : Threads.Alike { t with threads := [], deadlines := [], seqs := [] }
        { u with threads := [], deadlines := [], seqs := [] } := by
      cases alike with
      | mk _ _ _ now _ => exact .mk rfl rfl rfl now (by simp)
    obtain ⟨same, threads⟩ := Threads.Alike.loadThreads read.1.toNat read.2 cleared
    simp only
    generalize Threads.loadThreads read.1.toNat
      { t with threads := [], deadlines := [], seqs := [] }
      read.2 = x at same threads
    generalize Threads.loadThreads read.1.toNat
      { u with threads := [], deadlines := [], seqs := [] }
      read.2 = y at same threads
    obtain ⟨left, t'⟩ := x
    obtain ⟨left', u'⟩ := y
    cases same
    cases left with
    | none => exact ⟨rfl, threads, rfl⟩
    | some stream =>
      simp only
      cases rd32 stream with
      | none => exact ⟨rfl, threads.queues fun _ => [], rfl⟩
      | some read =>
        simp only
        generalize Threads.loadQueues read.1.toNat [] read.2 = queues
        obtain ⟨rest, futicies⟩ := queues
        have filled := threads.queues fun _ => futicies
        cases rest with
        | none => exact ⟨rfl, filled, rfl⟩
        | some stream => exact filled.loadTail c header stream

theorem load (c : Context) (stream : Bytes) : Loaded (t.load c stream) (u.load c stream) := by
  have ids : ∀ nextTid activeTid, Alike { t with nextTid, activeTid }
      { u with nextTid, activeTid } := fun nextTid activeTid => by
    have changed := alike.change rfl nextTid activeTid t.futicies
    cases alike
    exact changed
  have same := alike
  cases alike
  rw [Threads.load, Threads.load]
  dsimp only
  split
  · exact ⟨rfl, same, rfl⟩
  · cases loadHeader t.spec stream with
    | none => exact ⟨rfl, same, rfl⟩
    | some read =>
      obtain ⟨header, stream⟩ := read
      dsimp only
      generalize rdInto32 t.nextTid stream = x
      obtain ⟨nextTid, left⟩ := x
      cases left with
      | none => exact ⟨rfl, ids nextTid t.activeTid, rfl⟩
      | some stream =>
        dsimp only
        generalize rdInto32 t.activeTid stream = x
        obtain ⟨activeTid, left⟩ := x
        cases left with
        | none => exact ⟨rfl, ids nextTid activeTid, rfl⟩
        | some stream => exact (ids nextTid activeTid).loadBody c header stream

end

end Threads.Alike

end Sets

/-! ## Operations -/

/-- The same registers and memory, and sets alike. -/
inductive Machine.Alike {M : Type} : Machine M → Machine M → Prop where
  | mk {t u : Threads} (c : Context) (memory : M) : t.Alike u →
      Alike ⟨t, c, memory⟩ ⟨u, c, memory⟩

section Operations

variable {M : Type} {t u : Threads} {m n : Machine M}

namespace Machine.Alike

theorem switched {x y : Except Death (UInt64 × Threads × Context)} (memory : M)
    (both : Agrees Scheduled x y) :
    Agrees Alike (Machine.switched memory x) (Machine.switched memory y) := by
  cases both with
  | error e => exact .error (e, memory)
  | ok w next =>
    rename_i s s'
    obtain ⟨t, c⟩ := s
    obtain ⟨u, d⟩ := s'
    obtain ⟨sets, rfl⟩ := next
    exact .ok w (.mk _ memory sets)

section

variable (alike : m.Alike n)
include alike

theorem yieldValue (ret : UInt64) : Agrees Alike (m.yieldValue ret) (n.yieldValue ret) := by
  obtain ⟨c, memory, alike⟩ := alike
  exact switched memory (alike.swapToNext c ret)

theorem parkMe (ret addr : UInt64) : Agrees Alike (m.parkMe ret addr) (n.parkMe ret addr) := by
  obtain @⟨t, u, c, memory, alike⟩ := alike
  have parked := alike.park addr t.activeTid
  rw [Machine.parkMe, Machine.parkMe, alike.activeTid]
  exact switched memory (parked.swapToNext c ret)

theorem schedYield : Agrees Alike m.schedYield n.schedYield := by
  obtain @⟨t, u, c, memory, alike⟩ := alike
  have ticks : (u.spec = 3 ∧ 2 ≤ u.kitRevision ∧ u.yieldTicks = true) =
      (t.spec = 3 ∧ 2 ≤ t.kitRevision ∧ t.yieldTicks = true) := by
    cases alike
    rfl
  simp only [Machine.schedYield, ticks]
  split
  · exact yieldValue (.mk c memory (alike.advance _)) _
  · exact yieldValue (.mk c memory alike) _

theorem setTidAddress (addr : UInt64) :
    Agrees Alike (m.setTidAddress addr) (n.setTidAddress addr) := by
  obtain @⟨t, u, c, memory, alike⟩ := alike
  have marked := alike.onThread t.activeTid fun g => { g with tidAddress := addr }
  simp only [Machine.setTidAddress, alike.activeTid, alike.findThread]
  cases t.findThread t.activeTid with
  | none => exact .error _
  | some self => exact .ok _ (.mk c memory marked)

/-- Timed waits parked under different marks. -/
theorem parkUntil (v3 : m.threads.spec = 3) (addr deadline : UInt64) :
    Alike (m.parkUntil addr deadline) (n.parkUntil addr deadline) := by
  obtain @⟨t, u, c, memory, alike⟩ := alike
  have index : u.threadIndex t.activeTid = t.threadIndex t.activeTid := by
    cases alike
    rfl
  have parked := (alike.park addr t.activeTid).setDeadline (t.threadIndex t.activeTid) deadline
    (.inl v3) (t.parkSeq + 1) (u.parkSeq + 1)
  have counted := parked.setParkSeq (t.parkSeq + 1) (u.parkSeq + 1)
  simp only [Machine.parkUntil, alike.activeTid, index]
  exact .mk c memory counted

variable [GuestMemory M]

theorem spawn (threadArea guestRsp guestRip childTid parentTid pthreadArea : UInt64) :
    ∃ r m' n', Alike m' n' ∧
      m.spawn threadArea guestRsp guestRip childTid parentTid pthreadArea = (r, m') ∧
      n.spawn threadArea guestRsp guestRip childTid parentTid pthreadArea = (r, n') := by
  obtain @⟨t, u, c, memory, alike⟩ := alike
  have next : u.nextTid = t.nextTid := by
    cases alike
    rfl
  have joined : ∀ g : GThread, Threads.Alike { t.insertThread g with nextTid := t.nextTid + 1 }
      { u.insertThread g with nextTid := t.nextTid + 1 } := fun g => by
    have inserted := alike.insertThread g
    have changed := inserted.change rfl (t.nextTid + 1) (t.insertThread g).activeTid
      (t.insertThread g).futicies
    cases alike
    exact changed
  simp only [Machine.spawn, next]
  split
  · exact ⟨_, _, _, .mk c memory alike, rfl, rfl⟩
  · split
    · exact ⟨_, _, _, .mk c _ alike, rfl, rfl⟩
    · exact ⟨_, _, _, .mk c _ (joined _), rfl, rfl⟩

theorem leave (self : GThread) : Alike (m.leave self) (n.leave self) := by
  obtain ⟨c, memory, alike⟩ := alike
  unfold Machine.leave
  split
  · dsimp only
    rw [alike.activeTid]
    exact .mk c memory (alike.onThread _ _)
  · have woken := (alike.unparkOne self.tidAddress).2
    dsimp only
    rw [woken.activeTid]
    exact .mk c _ (woken.onThread _ _)

theorem exit : Agrees Alike m.exit n.exit := by
  have left := alike.leave
  obtain @⟨t, u, c, memory, alike⟩ := alike
  rw [Machine.exit, Machine.exit]
  simp only [alike.activeTid, alike.findThread]
  split
  · exact .error _
  · cases t.findThread t.activeTid with
    | none => exact .error _
    | some self =>
      have yielded := (left self).yieldValue (sok 0)
      simp only [Machine.yield]
      generalize Machine.yieldValue _ (sok 0) = x at yielded
      generalize Machine.yieldValue _ (sok 0) = y at yielded
      cases yielded with
      | error e => exact .error e
      | ok ret next =>
        obtain ⟨c, memory, sets⟩ := next
        simp only [sets.activeTid]
        split
        · exact .error _
        · exact .ok ret (.mk c memory (sets.removeThread _))

theorem futexWait (addr : UInt64) (compare : UInt32) :
    Agrees Alike (m.futexWait addr compare) (n.futexWait addr compare) := by
  obtain ⟨c, memory, alike⟩ := alike
  simp only [Machine.futexWait]
  split
  · exact .ok _ (.mk c _ alike)
  · exact parkMe (.mk c _ alike) _ addr

theorem futexWaitTimeout (addr : UInt64) (compare : UInt32) (hasDeadline : Bool)
    (deadline : UInt64) :
    Agrees Alike (m.futexWaitTimeout addr compare hasDeadline deadline)
      (n.futexWaitTimeout addr compare hasDeadline deadline) := by
  obtain @⟨t, u, c, memory, alike⟩ := alike
  have read := Machine.Alike.mk c (GuestMemory.read32 memory addr).2 alike
  simp only [Machine.futexWaitTimeout, alike.spec]
  split
  · exact .ok _ read
  · split
    · exact read.parkMe _ addr
    · rename_i timed
      have v3 : t.spec = 3 := by
        by_contra v2
        exact timed (.inl v2)
      rw [alike.clockNs v3]
      split
      · have later := alike.advance Threads.tickNs
        have revision : (u.advance Threads.tickNs).kitRevision =
            (t.advance Threads.tickNs).kitRevision := by
          generalize t.advance Threads.tickNs = s at later
          generalize u.advance Threads.tickNs = s' at later
          cases later
          rfl
        rw [revision]
        split
        · exact yieldValue (.mk c _ later) _
        · exact .ok _ (.mk c _ later)
      · exact (read.parkUntil v3 addr deadline).yieldValue _

theorem futexLockPi (addr : UInt64) : Agrees Alike (m.futexLockPi addr) (n.futexLockPi addr) := by
  obtain ⟨c, memory, alike⟩ := alike
  simp only [Machine.futexLockPi, alike.activeTid]
  split
  · exact .ok _ (.mk c _ alike)
  · exact parkMe (.mk c _ alike) _ addr

theorem futexUnlockPi (addr : UInt64) :
    Agrees Alike (m.futexUnlockPi addr) (n.futexUnlockPi addr) := by
  obtain @⟨t, u, c, memory, alike⟩ := alike
  obtain ⟨same, next⟩ := alike.unparkOne addr
  rw [Machine.futexUnlockPi, Machine.futexUnlockPi]
  dsimp only
  generalize t.unparkOne addr = x at same next
  generalize u.unparkOne addr = y at same next
  obtain ⟨found, t'⟩ := x
  obtain ⟨found', u'⟩ := y
  cases same
  cases found with
  | none => exact .ok _ (.mk c _ next)
  | some one => exact switched _ (next.swapTo c one.1 (sok 0))

end

end Machine.Alike

theorem answer_agrees {x y : Answer M UInt64} (both : Agrees Machine.Alike x y) :
    Agrees Machine.Alike (answer x) (answer y) := by
  cases both with
  | error e => exact .error e
  | ok w next => exact .ok _ next

theorem reply_agrees {α : Type} {x y : α × Threads} (reply : α → Reply) (c : Context) (memory : M)
    (both : y.1 = x.1 ∧ x.2.Alike y.2) :
    Agrees (ε := Death × M) Machine.Alike (.ok (reply x.1, ⟨x.2, c, memory⟩))
      (.ok (reply y.1, ⟨y.2, c, memory⟩)) := by
  rw [both.1]
  exact .ok _ (.mk c memory both.2)

theorem Threads.Alike.holdStackUnmap (alike : t.Alike u) (r : Range) :
    (u.holdStackUnmap r).1 = (t.holdStackUnmap r).1 ∧
      (t.holdStackUnmap r).2.Alike (u.holdStackUnmap r).2 := by
  rw [Threads.holdStackUnmap, Threads.holdStackUnmap, alike.activeTid, alike.findThread]
  cases t.findThread t.activeTid with
  | none => exact ⟨rfl, alike⟩
  | some self =>
    dsimp only
    split
    · exact ⟨rfl, alike⟩
    · split
      · exact ⟨rfl, alike⟩
      · exact ⟨rfl, alike.onThread _ _⟩

theorem Threads.Alike.takeHeldUnmap (alike : t.Alike u) :
    u.takeHeldUnmap.1 = t.takeHeldUnmap.1 ∧ t.takeHeldUnmap.2.Alike u.takeHeldUnmap.2 := by
  rw [Threads.takeHeldUnmap, Threads.takeHeldUnmap, alike.activeTid, alike.findThread]
  cases t.findThread t.activeTid with
  | none => exact ⟨rfl, alike⟩
  | some self =>
    dsimp only
    split
    · exact ⟨rfl, alike⟩
    · exact ⟨rfl, alike.onThread _ _⟩

/-- Every operation answers the same on machines alike, and leaves machines alike. -/
theorem ThreadOp.agrees [GuestMemory M] (alike : m.Alike n) (op : ThreadOp) :
    Agrees Machine.Alike (op.run m) (op.run n) := by
  obtain ⟨c, memory, sets⟩ := id alike
  cases op with
  | spawn a b rip child parent pthread =>
    obtain ⟨r, m', n', after, left, right⟩ := alike.spawn a b rip child parent pthread
    rw [run, run, left, right]
    exact .ok _ after
  | exit => exact answer_agrees alike.exit
  | yieldValue ret => exact answer_agrees (alike.yieldValue ret)
  | schedYield => exact answer_agrees alike.schedYield
  | futexWait addr compare => exact answer_agrees (alike.futexWait addr compare)
  | futexWaitTimeout addr compare hasDeadline deadline =>
    exact answer_agrees (alike.futexWaitTimeout addr compare hasDeadline deadline)
  | futexWake addr count =>
    exact reply_agrees .count c memory (Threads.Alike.requeueLoop addr 0 _ _ sets)
  | futexRequeue source target wake requeue =>
    exact reply_agrees .count c memory (Threads.Alike.requeueLoop source target _ _ sets)
  | futexLockPi addr => exact answer_agrees (alike.futexLockPi addr)
  | futexUnlockPi addr => exact answer_agrees (alike.futexUnlockPi addr)
  | advance ns => exact .ok _ (.mk c memory (sets.advance ns))
  | setTidAddress addr => exact answer_agrees (alike.setTidAddress addr)
  | holdStackUnmap r => exact reply_agrees .held c memory (sets.holdStackUnmap r)
  | takeHeldUnmap => exact reply_agrees .unmap c memory sets.takeHeldUnmap
  | save => exact reply_agrees .stream c memory (sets.save c)
  | load stream =>
    obtain ⟨rest, loaded, registers⟩ := sets.load c stream
    rw [run, run]
    dsimp only
    rw [rest, registers]
    exact .ok _ (.mk _ memory loaded)

end Operations

/-! ## Whole runs -/

/-- One turn of a run: what the guest does on its own to the registers and the memory, then
an operation. -/
structure Turn (M : Type) where
  guest : Context × M → Context × M
  op : ThreadOp

/-- What can be seen of a machine: who runs, what each thread is left with and waits for, who
stands in which queue, and what a clock that started at `start` reads. -/
structure Sight (M : Type) where
  context : Context
  memory : M
  activeTid : UInt32
  nextTid : UInt32
  threads : List GThread
  deadlines : List UInt64
  futicies : Queues UInt64 UInt32
  clock : UInt64

section Runs

variable {M : Type}

/-- `NR_clock_gettime`: before spec 3 the clock stands still. -/
def Threads.clockReading (t : Threads) (start : UInt64) : UInt64 :=
  if t.spec = 3 then start + t.vclockNs else start

def Machine.sight (start : UInt64) (m : Machine M) : Sight M :=
  ⟨m.context, m.memory, m.threads.activeTid, m.threads.nextTid, m.threads.threads,
    m.threads.deadlines, m.threads.futicies, m.threads.clockReading start⟩

theorem Threads.Alike.clockReading {t u : Threads} (alike : t.Alike u) (start : UInt64) :
    u.clockReading start = t.clockReading start := by
  rw [Threads.clockReading, Threads.clockReading, alike.spec]
  split
  · rename_i v3
    rw [alike.clockNs v3]
  · rfl

theorem Machine.Alike.sight {m n : Machine M} (alike : m.Alike n) (start : UInt64) :
    m.sight start = n.sight start := by
  cases alike with
  | mk c memory sets =>
    rw [Machine.sight, Machine.sight, sets.clockReading]
    cases sets
    rfl

variable [GuestMemory M]

def Turn.run (m : Machine M) (turn : Turn M) : Answer M Reply :=
  let (context, memory) := turn.guest (m.context, m.memory)
  turn.op.run ⟨m.threads, context, memory⟩

theorem Turn.agrees {m n : Machine M} (alike : m.Alike n) (turn : Turn M) :
    Agrees Machine.Alike (run m turn) (run n turn) := by
  cases alike with
  | mk c memory sets => exact turn.op.agrees (.mk _ _ sets)

/-- The set a load leaves is alike to the one that was saved. -/
theorem Threads.WellFormed.alike_restored {t u : Threads} (well : t.WellFormed) (c : Context)
    (spec : u.spec = t.spec) (revision : u.kitRevision = t.kitRevision) :
    (t.settle c).Alike (u.restored (t.settle c)) := by
  have length : (t.settle c).threads.length = t.threads.length :=
    List.length_modify _ t.threads (t.threadIndex 1)
  have deadlines : t.deadlines.length = (t.settle c).threads.length :=
      well.aligned.1.trans length.symm
  have shape : u.restored (t.settle c) =
      { t.settle c with
        seqs := List.replicate (t.settle c).threads.length 0, parkSeq := u.parkSeq
        vclockNs := if t.spec = 3 then t.vclockNs else u.vclockNs } := by
    have kept : (if t.spec = 3 then t.deadlines else List.replicate (t.settle c).threads.length 0) =
        t.deadlines := by
      split
      · rfl
      · rename_i v2
        exact (List.eq_replicate_iff.mpr ⟨deadlines, well.untimed v2⟩).symm
    rw [restored, spec, revision]
    congr 1
  rw [shape]
  exact .mk deadlines (well.aligned.2.trans length.symm) (List.length_replicate ..)
    (fun v3 => if_pos v3) well.untimed

/-- What a save wrote is loaded by any set of the same spec and revision, and from then on
nobody can tell the two apart: whatever the guest does and whatever is asked of them, they
answer the same, run the same threads and read the same clock. -/
theorem Threads.WellFormed.resumes {t u : Threads} (well : t.WellFormed) (main : t.activeTid = 1)
    (active : u.activeTid = 1) (spec : u.spec = t.spec) (revision : u.kitRevision = t.kitRevision)
    (c d : Context) (rest : Bytes) :
    ∃ bytes t' u', t.save c = (some bytes, t') ∧ u.load d (bytes ++ rest) = (some rest, u', c) ∧
      ∀ (memory : M) (start : UInt64) (turns : List (Turn M)),
        watch Turn.run (Machine.sight start) ⟨u', c, memory⟩ turns =
          watch Turn.run (Machine.sight start) ⟨t', c, memory⟩ turns := by
  have saved : t.save c = (some ((t.settle c).encode c), t.settle c) := by
    rw [save, if_neg (not_not_intro main)]
  have read := well.load main c (iff_of_eq (congrArg (· = 3) spec)) active d rest
  have alike := well.alike_restored c spec revision
  refine ⟨_, _, _, saved, read, fun memory start turns => ?_⟩
  exact (watch_eq Turn.agrees (fun alike => alike.sight start) turns (.mk c memory alike)).symm

end Runs

/-- Two threads that wait for one moment, under different marks. -/
def Threads.twoWait : Threads :=
  (((((new.setSpec 3).setKitRevision 2).after .start).after .start).after (.yieldValue 0)).after
    (.futexWaitTimeout 64 0 true 5000) |>.after (.futexWaitTimeout 72 0 true 5000)

theorem Threads.WellFormed.resumes_twoWait :
    twoWait.deadlines = [0, 5000, 5000] ∧ twoWait.seqs = [0, 1, 2] ∧
    ∃ bytes t' u', twoWait.save .zero = (some bytes, t') ∧
      ((new.setSpec 3).setKitRevision 2).load .zero (bytes ++ []) = (some [], u', .zero) ∧
      ∀ (memory : Zeros) (start : UInt64) (turns : List (Turn Zeros)),
        watch Turn.run (Machine.sight start) ⟨u', .zero, memory⟩ turns =
          watch Turn.run (Machine.sight start) ⟨t', .zero, memory⟩ turns := by
  have run : ThreadRun Zeros (fun t op => op.Fits t) _ _ _ := .new 3 2
  obtain ⟨since, run⟩ := run.step .start trivial (show (2 : UInt32) ≠ 0 by decide) rfl
  obtain ⟨since, run⟩ := run.step .start trivial (show (3 : UInt32) ≠ 0 by decide) rfl
  obtain ⟨since, run⟩ := run.step (.yieldValue 0) trivial trivial rfl
  obtain ⟨since, run⟩ := run.step (.futexWaitTimeout 64 0 true 5000) trivial trivial rfl
  obtain ⟨since, run⟩ := run.step (.futexWaitTimeout 72 0 true 5000) trivial trivial rfl
  have well : twoWait.WellFormed := run.inOrder.good.wellFormed
  exact ⟨rfl, rfl, WellFormed.resumes (u := (new.setSpec 3).setKitRevision 2) well
    rfl rfl rfl rfl .zero .zero []⟩

end MiniBox
