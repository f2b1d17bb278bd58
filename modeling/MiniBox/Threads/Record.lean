import MiniBox.Host.ThreadTurns

/-!
# A thread's stack and the unmap it holds

Two fields of a thread's record outlive whatever the thread does: its stack, and an unmap of that
stack that waits for the thread to exit.  Scheduling, parking and waking change other fields of
records; starting and ending other threads moves records about in the array.  So no thread or time
call changes what `find_thread` gives of the two for a thread, but for that thread's own exit
(`ThreadCall.spares`).  It does not matter here whether ids are unique.
-/

namespace MiniBox

open Lib

/-- The thread that `find_thread` gives for `x` has this stack, and holds this unmap. -/
def Threads.Held (t : Threads) (x : UInt32) (stack pending : Range) : Prop :=
  ∃ g, t.findThread x = some g ∧ g.stack = stack ∧ g.pending = pending

/-- What comes after `t` has the same stack for `x` and the same unmap. -/
def Threads.Spares (x : UInt32) (t t' : Threads) : Prop :=
  ∀ stack pending, t.Held x stack pending → t'.Held x stack pending

section Sets

variable {t t' t'' : Threads} {x : UInt32} {f : GThread → GThread} {tid : UInt32} {c c' : Context}
  {ret w : UInt64}

namespace Threads

theorem Spares.refl (t : Threads) : Spares x t t := fun _ _ => id

theorem Spares.trans (first : Spares x t t') (second : Spares x t' t'') :
    Spares x t t'' := fun stack pending held =>
  second stack pending (first stack pending held)

theorem Spares.same (same : t'.threads = t.threads) : Spares x t t' := by
  rintro stack pending ⟨g, found, fields⟩
  refine ⟨g, ?_, fields⟩
  unfold findThread at found ⊢
  rw [same]
  exact found

/-- One record changed in other fields than these. -/
theorem Spares.modify {i : Nat} (tid : ∀ g, (f g).tid = g.tid)
    (stack : ∀ g, (f g).stack = g.stack) (pending : ∀ g, (f g).pending = g.pending)
    (same : t'.threads = t.threads.modify i f) : Spares x t t' := by
  rintro _ _ ⟨g, found, rfl, rfl⟩
  unfold Held findThread
  unfold findThread at found
  rw [same]
  rcases find?_modify (p := fun g => g.tid == x) (fun g => by rw [tid]) i t.threads with
    other | this
  · exact ⟨g, other.trans found, rfl, rfl⟩
  · refine ⟨f g, ?_, stack g, pending g⟩
    rw [this, found]
    rfl

/-- Another thread's record changed. -/
theorem onThread_spares (t : Threads) (other : tid ≠ x) (keeps : ∀ g, (f g).tid = g.tid) :
    Spares x t (t.onThread tid f) := by
  rintro stack pending ⟨g, found, fields⟩
  refine ⟨g, ?_, fields⟩
  refine (find?_modify_apart (fun h => by rw [keeps]) (fun h here => ?_) t.threads).trans found
  have id_ : h.tid = tid := by simpa using here
  simpa [id_] using other

theorem holdStackUnmap_spares (t : Threads) (r : Range) (other : t.activeTid ≠ x) :
    Spares x t (t.holdStackUnmap r).2 := by
  unfold holdStackUnmap
  split
  · exact .refl t
  · split_ifs
    · exact .refl t
    · exact .refl t
    · exact t.onThread_spares other fun _ => rfl

theorem takeHeldUnmap_spares (t : Threads) (other : t.activeTid ≠ x) :
    Spares x t t.takeHeldUnmap.2 := by
  unfold takeHeldUnmap
  split
  · exact .refl t
  · split_ifs
    · exact .refl t
    · exact t.onThread_spares other fun _ => rfl

theorem expireSteps_spares : ∀ (fuel : Nat) (t : Threads), Spares x t (expireSteps fuel t)
  | 0, t => .refl t
  | fuel + 1, t => by
    rw [expireSteps]
    split
    · exact .refl t
    next i _ =>
      refine .trans ?_ (expireSteps_spares fuel (t.expireAt i))
      unfold expireAt
      split
      · exact .refl t
      · exact .modify (f := GThread.timedOut) (fun _ => rfl) (fun _ => rfl) (fun _ => rfl) rfl

theorem advance_spares (t : Threads) (ns : UInt64) : Spares x t (t.advance ns) :=
  expireSteps_spares t.threads.length { t with vclockNs := t.nsAdd t.vclockNs ns }

theorem store_spares (t : Threads) (c : Context) (ret : UInt64) : Spares x t (t.store c ret) :=
  .modify (f := fun g => { g with rax := ret, rsp := c.guestRsp, threadArea := c.threadArea })
    (fun _ => rfl) (fun _ => rfl) (fun _ => rfl) rfl

theorem park_spares (t : Threads) (addr : UInt64) (tid : UInt32) : Spares x t (t.park addr tid) :=
  .modify (f := fun g => { g with state := .waiting }) (fun _ => rfl) (fun _ => rfl) (fun _ => rfl)
    rfl

theorem unparkOne_spares (t : Threads) (addr : UInt64) : Spares x t (t.unparkOne addr).2 := by
  unfold unparkOne
  split
  · exact .same rfl
  · exact .modify (f := fun g => { g with state := .runnable }) (fun _ => rfl) (fun _ => rfl)
      (fun _ => rfl) rfl

theorem requeueLoop_spares (source target : UInt64) : ∀ (left wake : Nat) (t : Threads),
    Spares x t (requeueLoop source target left wake t).2
  | 0, _, t => .refl t
  | left + 1, wake, t => by
    have first : Spares x t (t.unparkOne source).2 := t.unparkOne_spares source
    rw [requeueLoop]
    generalize t.unparkOne source = one at first
    obtain ⟨found, s⟩ := one
    cases found with
    | none => exact first
    | some tid_more =>
      obtain ⟨tid, more⟩ := tid_more
      have moved : Spares x t (if wake = 0 then s.park target tid else s) := by
        split
        · exact first.trans (s.park_spares target tid)
        · exact first
      cases more with
      | false => exact moved
      | true => exact moved.trans (requeueLoop_spares source target left (wake - 1) _)

theorem swapTo_spares (ran : t.swapTo c tid ret = .ok (w, t', c')) : Spares x t t' := by
  rw [swapTo_eq ran]
  exact .trans (t.store_spares c ret) (.same rfl)

theorem swapLoop_spares : ∀ (fuel : Nat) {t t' : Threads} {c c' : Context} {ret w : UInt64},
    swapLoop fuel t c ret = .ok (w, t', c') → Spares x t t'
  | 0, _, _, _, _, _, _, ran => by cases ran
  | fuel + 1, t, t', c, c', ret, w, ran => by
    rw [swapLoop] at ran
    split at ran
    · cases ran
    · split at ran
      · cases ran
        exact .refl t
      · exact swapTo_spares ran
    · split at ran
      · dsimp only at ran
        split at ran
        · cases ran
        · refine .trans ?_ (swapLoop_spares fuel ran)
          exact expireSteps_spares t.threads.length { t with vclockNs := t.earliest }
      · cases ran

theorem swapToNext_spares (ran : t.swapToNext c ret = .ok (w, t', c')) : Spares x t t' :=
  .trans (t.store_spares c ret) (swapLoop_spares _ ran)

/-- A new thread comes behind those that have its id. -/
theorem insertThread_spares (t : Threads) (g : GThread) : Spares x t (t.insertThread g) := by
  rintro stack pending ⟨self, found, fields⟩
  refine ⟨self, ?_, fields⟩
  have parts := List.takeWhile_append_dropWhile (p := fun h => decide (g.tid < h.tid))
    (l := t.threads.reverse)
  have whole : t.threads = (t.threads.reverse.dropWhile fun h => decide (g.tid < h.tid)).reverse ++
      (t.threads.reverse.takeWhile fun h => decide (g.tid < h.tid)).reverse := by
    rw [← List.reverse_append, parts, List.reverse_reverse]
  have above : ∀ h ∈ (t.threads.reverse.takeWhile fun h => decide (g.tid < h.tid)).reverse,
      g.tid < h.tid := fun h member => by
    simpa using List.mem_takeWhile_imp (List.mem_reverse.mp member)
  unfold findThread at found ⊢
  show (t.threads.insertIdx (t.threads.reverse.dropWhile fun h => decide (g.tid < h.tid)).length
    g).find? _ = _
  rw [← List.length_reverse]
  generalize (t.threads.reverse.dropWhile fun h => decide (g.tid < h.tid)).reverse = low at whole
  generalize (t.threads.reverse.takeWhile fun h => decide (g.tid < h.tid)).reverse =
    high at whole above
  rw [whole] at found ⊢
  rw [insertIdx_append, List.find?_append, List.find?_cons]
  rw [List.find?_append] at found
  cases first : low.find? fun h => h.tid == x with
  | some h =>
    rw [first] at found
    exact found
  | none =>
    rw [first, Option.none_or] at found
    -- the thread is above the new one, which then is not it
    have member := List.mem_of_find?_eq_some found
    have id_ : self.tid = x := by simpa using List.find?_some found
    have less := above self member
    have other : (g.tid == x) = false := by
      rw [beq_eq_false_iff_ne, ← id_]
      exact UInt32.ne_of_lt less
    rw [other, Option.none_or]
    exact found

theorem removeThread_spares (t : Threads) (other : tid ≠ x) : Spares x t (t.removeThread tid) := by
  rintro stack pending ⟨self, found, fields⟩
  refine ⟨self, ?_, fields⟩
  refine (find?_eraseIdx_findIdx (fun g here => ?_) t.threads).trans found
  have id_ : g.tid = tid := by simpa using here
  simpa [id_] using other

end Threads

end Sets

/-! ## Calls -/

section Calls

variable {M : Type} [GuestAccess M] {start : UInt64} {m m' : Machine M} {x : UInt32}

theorem Machine.Turn.spares {gone : UInt32 → Prop} (other : ¬gone x)
    (turn : Turn start gone m m') : Threads.Spares x m.threads m'.threads := by
  cases turn with
  | advance ns => exact m.threads.advance_spares ns
  | park addr => exact m.threads.park_spares addr _
  | parkUntil addr => exact .trans (m.threads.park_spares addr m.threads.activeTid) (.same rfl)
  | unparkOne addr => exact m.threads.unparkOne_spares addr
  | requeue source target left wake => exact Threads.requeueLoop_spares source target left wake _
  | insert g => exact .trans (m.threads.insertThread_spares g) (.same rfl)
  | touch tid stack pending => exact .modify tid stack pending rfl
  | take mine => exact m.threads.takeHeldUnmap_spares fun here => other (here ▸ mine)
  | remove mine => exact m.threads.removeThread_spares fun here => other (here ▸ mine)
  | swapToNext ran => exact Threads.swapToNext_spares ran
  | swapTo _ ran => exact Threads.swapTo_spares ran
  | _ => exact .refl _

/-- A thread or time call changes nothing about a thread's stack and the unmap it holds, unless
it is that thread's exit. -/
theorem ThreadCall.spares {call : ThreadCall} {w : UInt64}
    (other : call = .exit → m.threads.activeTid ≠ x) (ran : call.run start m = .ok (w, m')) :
    Threads.Spares x m.threads m'.threads := by
  have turns : Machine.Turns start (· ≠ x) m m' := turns ran other
  clear ran
  induction turns with
  | refl => exact .refl _
  | tail _ turn ih => exact ih.trans (turn.spares (not_not_intro rfl))

end Calls

end MiniBox
