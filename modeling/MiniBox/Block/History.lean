import MiniBox.Block.Machine

/-!
# Anchor plus deltas

A `History` is a machine with the timelines it has recorded.  A frame adds its record to the
current timeline; loading a state goes back to it, on this timeline or on one that was left,
and drops what came after; applying a recorded delta goes forward again.

On a timeline each delta takes the machine of the record before to the machine of its own
record (`Timeline`).  So a state of the timeline, and the deltas after it in order, any
adjacent ones composed, give back each later record.
-/

namespace MiniBox

open Lib

/-! ## Streams of deltas -/

/-- One delta after the other, each read to its end. -/
def Block.applyAll (b : Block) : List Bytes → Option Block
  | [] => some b
  | stream :: rest =>
    match b.deltaApply stream with
    | (.ok [], c) => c.applyAll rest
    | _ => none

/-- `z` is the composition of `x` and `y`, by either composer. -/
def Composition (x y z : Bytes) : Prop :=
  deltaCompose x y = .ok (z, [], []) ∨ deltaComposeMem x y = .ok (z, y.length)

/-- The deltas with adjacent ones replaced by their composition, any number of times. -/
inductive Composed (deltas : List Bytes) : List Bytes → Prop where
  | refl : Composed deltas deltas
  | compose {before after : List Bytes} {x y z : Bytes} :
      Composed deltas (before ++ x :: y :: after) → Composition x y z →
      Composed deltas (before ++ z :: after)

/-- A delta that was recorded, or composed from recorded ones. -/
inductive FromLog (log : List Bytes) : Bytes → Prop where
  | saved {x : Bytes} : x ∈ log → FromLog log x
  | compose {x y z : Bytes} : FromLog log x → FromLog log y → Composition x y z → FromLog log z

/-! ## Histories -/

/-- A frame as it was recorded: the machine after it, and the delta it wrote. -/
structure Record where
  state : Block
  delta : Bytes

/-- Everything a run has recorded. -/
structure Archive where
  /-- every delta written -/
  log : List Bytes := []
  /-- every timeline there has been, the current one included -/
  lines : List (List Record)
  /-- the current timeline -/
  line : List Record

/-- The timeline is now `line`. -/
def Archive.turn (a : Archive) (line : List Record) : Archive :=
  { a with lines := line :: a.lines, line }

/-- The runs of a machine sealed on a 4 KiB host, in frames; `start` holds whenever one
begins. -/
inductive History (start : Block → Prop) (o : Block) : Archive → Block → Prop where
  | origin : History start o { lines := [[⟨o, []⟩]], line := [⟨o, []⟩] } o
  | activate {a : Archive} {b : Block} : History start o a b → History start o a b.activate
  | frame {a : Archive} {b c : Block} {delta : Bytes} (ops : List Op) : History start o a b →
      start b → (b.epochBegin.2.runOps ops).deltaSave true = (.ok delta, c) →
      History start o
        (Archive.turn { a with log := delta :: a.log } (a.line ++ [⟨c, delta⟩])) c
  | load {a : Archive} {b c : Block} {old : List Record} {k : Nat} {r : Record}
      {stream rest : Bytes} : History start o a b → old ∈ a.lines → old[k]? = some r →
      r.state.saveState = .ok stream → b.loadState stream = (.ok rest, c) →
      History start o (a.turn (old.take (k + 1))) c
  | apply {a : Archive} {b c : Block} {delta rest : Bytes} : History start o a b →
      b.plan = none → FromLog a.log delta → b.deltaApply delta = (.ok rest, c) →
      History start o (a.turn (a.line ++ [⟨c, delta⟩])) c

/-! ## Deltas that keep to the seal -/

section Valid

variable {inv : Nat → Bool} {base : Nat → PageBytes} {n : Nat} {d e : Delta n} {o : Block}
  {records : List Record}

/-- The stream is a delta of `n` pages that declares clean only what was sealed. -/
def Honest (inv : Nat → Bool) (base : Nat → PageBytes) (n : Nat) (stream : Bytes) : Prop :=
  ∃ d : Delta n, stream = d.encode ∧ Declares (SealedWith inv base) d.data

theorem Delta.merge_declares {good : Nat → PageBytes → Prop} (hd : Declares good d.data)
    (he : Declares good e.data) : Declares good (d.merge e).data := by
  intro x listed clean
  rcases mem_mergeLater listed with earlier | later
  · exact hd x earlier clean
  · exact he x later clean

/-- Either composer writes the merge. -/
theorem Composition.merge (fits : fitsPages n) {z : Bytes} (h : Composition d.encode e.encode z) :
    z = (d.merge e).encode := by
  rcases h with streamed | buffered
  · have merged := deltaCompose_encode d e fits [] []
    rw [List.append_nil, List.append_nil, streamed] at merged
    cases merged
    rfl
  · have merged := deltaComposeMem_encode d e fits [] []
    rw [List.append_nil, List.append_nil, buffered] at merged
    cases merged
    rfl

theorem FromLog.honest (fits : fitsPages n) {log : List Bytes}
    (h : ∀ x ∈ log, Honest inv base n x) {x : Bytes} (logged : FromLog log x) :
    Honest inv base n x := by
  induction logged with
  | saved member => exact h _ member
  | compose _ _ composed ihx ihy =>
    obtain ⟨d, rfl, hd⟩ := ihx
    obtain ⟨e, rfl, he⟩ := ihy
    exact ⟨d.merge e, composed.merge fits, Delta.merge_declares hd he⟩

/-- What a list of deltas does, one after the other. -/
def effects (deltas : List (Delta n)) (view : Nat → PageView) : Nat → PageView :=
  deltas.foldl (fun view d => d.effect view) view

/-- Composing adjacent deltas changes nothing about what they do. -/
theorem Composed.effects (fits : fitsPages n) {ds : List (Delta n)} {streams : List Bytes}
    (honest : ∀ d ∈ ds, Declares (SealedWith inv base) d.data)
    (h : Composed (ds.map Delta.encode) streams) :
    ∃ es : List (Delta n), streams = es.map Delta.encode ∧
      (∀ e ∈ es, Declares (SealedWith inv base) e.data) ∧
      MiniBox.effects es = MiniBox.effects ds := by
  induction h with
  | refl => exact ⟨ds, rfl, honest, rfl⟩
  | compose _ composed ih =>
    obtain ⟨es, split, declares, same⟩ := ih
    obtain ⟨before, later, rfl, rfl, rest⟩ := List.map_eq_append_iff.mp split.symm
    obtain ⟨d, tail, rfl, rfl, rest'⟩ := List.map_eq_cons_iff.mp rest
    obtain ⟨e, after, rfl, rfl, rfl⟩ := List.map_eq_cons_iff.mp rest'
    refine ⟨before ++ d.merge e :: after, ?_, ?_, ?_⟩
    · rw [composed.merge fits]
      simp
    · intro x member
      rcases List.mem_append.mp member with first | later
      · exact declares x (by simp [first])
      · rcases List.mem_cons.mp later with rfl | last
        · exact Delta.merge_declares (declares d (by simp)) (declares e (by simp))
        · exact declares x (by simp [last])
    · rw [← same]
      funext view
      simp [MiniBox.effects, Delta.effect_merge]

theorem AgreeOn.effects {v w : Nat → PageView} (h : AgreeOn n inv v w) (ds : List (Delta n)) :
    AgreeOn n inv (MiniBox.effects ds v) (MiniBox.effects ds w) := by
  induction ds generalizing v w with
  | nil => exact h
  | cons d rest ih => exact ih (h.effect d)

/-- Honest deltas apply one after the other. -/
theorem Block.Of.applyAll {b : Block} (h : b.Of inv base o) (ds : List (Delta o.npages))
    (honest : ∀ d ∈ ds, Declares (SealedWith inv base) d.data) :
    ∃ c, b.applyAll (ds.map Delta.encode) = some c ∧ c.Of inv base o ∧
      AgreeOn o.npages inv c.view (MiniBox.effects ds b.view) := by
  induction ds generalizing b with
  | nil => exact ⟨b, rfl, h, .refl _ _ _⟩
  | cons d rest ih =>
    obtain ⟨c, applied, hc, view⟩ := h.deltaApply d (honest d (by simp)) []
    obtain ⟨e, all, he, view'⟩ := ih hc fun x member => honest x (by simp [member])
    refine ⟨e, ?_, he, view'.trans (view.effects rest)⟩
    rw [List.append_nil] at applied
    rw [List.map_cons, Block.applyAll, applied]
    exact all

/-! ## Timelines -/

/-- The delta of `r'` takes the machine of `r` to the machine of `r'`. -/
def Record.Follows (inv : Nat → Bool) (base : Nat → PageBytes) (n : Nat) (r r' : Record) : Prop :=
  ∃ d : Delta n, r'.delta = d.encode ∧ Declares (SealedWith inv base) d.data ∧
    AgreeOn n inv (d.effect r.state.view) r'.state.view

structure Timeline (inv : Nat → Bool) (base : Nat → PageBytes) (o : Block) (records : List Record) :
    Prop where
  of : ∀ r ∈ records, r.state.Of inv base o
  follows : ∀ k r r', records[k]? = some r → records[k + 1]? = some r' →
    r.Follows inv base o.npages r'

theorem Timeline.take (h : Timeline inv base o records) (k : Nat) :
    Timeline inv base o (records.take k) := by
  refine ⟨fun r member => h.of r (List.mem_of_mem_take member), fun j r r' here next => ?_⟩
  rw [List.getElem?_take] at here next
  split_ifs at here next
  exact h.follows j r r' here next

theorem Timeline.extend (h : Timeline inv base o records) {last new : Record}
    (ends : records.getLast? = some last) (of : new.state.Of inv base o)
    (follows : last.Follows inv base o.npages new) : Timeline inv base o (records ++ [new]) := by
  refine ⟨fun r member => ?_, fun k r r' here next => ?_⟩
  · rcases List.mem_append.mp member with old | fresh
    · exact h.of r old
    · rw [List.mem_singleton.mp fresh]
      exact of
  · rcases Nat.lt_trichotomy (k + 1) records.length with inside | edge | beyond
    · rw [List.getElem?_append_left (by omega)] at here
      rw [List.getElem?_append_left inside] at next
      exact h.follows k r r' here next
    · rw [List.getElem?_append_left (by omega)] at here
      rw [List.getElem?_append_right (by omega), edge, Nat.sub_self] at next
      cases next
      rw [List.getLast?_eq_getElem?, ← edge, Nat.add_sub_cancel, here] at ends
      cases ends
      exact follows
    · rw [List.getElem?_eq_none (by simp; omega)] at next
      cases next

/-- The records from `k` to `k + count`, by their deltas. -/
theorem Timeline.effects (h : Timeline inv base o records) {k : Nat} {r : Record}
    (here : records[k]? = some r) : ∀ {count : Nat} {s : Record}, records[k + count]? = some s →
      ∃ ds : List (Delta o.npages), ((records.drop (k + 1)).take count).map Record.delta =
          ds.map Delta.encode ∧
        (∀ d ∈ ds, Declares (SealedWith inv base) d.data) ∧
        AgreeOn o.npages inv (MiniBox.effects ds r.state.view) s.state.view
  | 0, s, there => by
    rw [Nat.add_zero, here] at there
    cases there
    exact ⟨[], rfl, by simp, .refl _ _ _⟩
  | count + 1, s, there => by
    have inside : k + count < records.length := by
      have := (List.getElem?_eq_some_iff.mp there).1
      omega
    obtain ⟨ds, streams, honest, view⟩ :=
      h.effects here (List.getElem?_eq_getElem inside)
    obtain ⟨d, is, declares, step⟩ := h.follows _ _ s (List.getElem?_eq_getElem inside) there
    refine ⟨ds ++ [d], ?_, ?_, ?_⟩
    · have next : (records.drop (k + 1))[count]? = some s := by
        rw [List.getElem?_drop, ← there]
        congr 1
        omega
      rw [List.take_add_one, next, List.map_append, streams, List.map_append]
      simp [is]
    · intro x member
      rcases List.mem_append.mp member with old | new
      · exact honest x old
      · rw [List.mem_singleton.mp new]
        exact declares
    · have after := view.effect d
      simp only [MiniBox.effects, List.foldl_append, List.foldl_cons, List.foldl_nil] at after ⊢
      exact after.trans step

/-! ## Every run -/

/-- What a run keeps: it is the same machine, and its timelines are in order. -/
structure Archive.Valid (inv : Nat → Bool) (base : Nat → PageBytes) (o : Block) (a : Archive)
    (b : Block) : Prop where
  of : b.Of inv base o
  lines : ∀ line ∈ a.lines, Timeline inv base o line
  current : a.line ∈ a.lines
  log : ∀ x ∈ a.log, Honest inv base o.npages x
  ends : ∃ r, a.line.getLast? = some r ∧ AgreeOn o.npages inv r.state.view b.view

section Steps

variable {o b c : Block} {a : Archive}

section

variable (h : a.Valid inv base o b)
include h

/-- The timeline goes to a new record, and the machine with it. -/
theorem Archive.Valid.turn {line : List Record} {r : Record} (valid : Timeline inv base o line)
    (last : line.getLast? = some r) (of : c.Of inv base o)
    (view : AgreeOn o.npages inv r.state.view c.view) : (a.turn line).Valid inv base o c where
  of := of
  lines l member := by
    rcases List.mem_cons.mp member with rfl | old
    · exact valid
    · exact h.lines l old
  current := List.mem_cons_self
  log := h.log
  ends := ⟨r, last, view⟩

/-- One more record at the end of the timeline. -/
theorem Archive.Valid.extend {d : Delta o.npages} (declares : Declares (SealedWith inv base) d.data)
    (of : c.Of inv base o) (view : AgreeOn o.npages inv (d.effect b.view) c.view) :
    (a.turn (a.line ++ [⟨c, d.encode⟩])).Valid inv base o c := by
  obtain ⟨last, ends, agree⟩ := h.ends
  have follows : last.Follows inv base o.npages ⟨c, d.encode⟩ :=
    ⟨d, rfl, declares, (agree.effect d).trans view⟩
  exact h.turn ((h.lines _ h.current).extend ends of follows) List.getLast?_concat of (.refl _ _ _)

theorem Archive.Valid.frame (watched : b.Watched) {ops : List Op} {delta : Bytes}
    (saved : (b.epochBegin.2.runOps ops).deltaSave true = (.ok delta, c)) :
    (Archive.turn { a with log := delta :: a.log } (a.line ++ [⟨c, delta⟩])).Valid
      inv base o c := by
  obtain ⟨d, written, declares, of, view⟩ := h.of.frame watched ops
  rw [saved] at written of view
  cases written
  have extended := h.extend declares of view
  refine { extended with log := fun x member => ?_ }
  rcases List.mem_cons.mp member with rfl | old
  · exact ⟨d, rfl, declares⟩
  · exact h.log x old

theorem Archive.Valid.load {old : List Record} {k : Nat} {r : Record} {stream rest : Bytes}
    (known : old ∈ a.lines) (here : old[k]? = some r) (saved : r.state.saveState = .ok stream)
    (loaded : b.loadState stream = (.ok rest, c)) :
    (a.turn (old.take (k + 1))).Valid inv base o c := by
  have line := h.lines old known
  have of := line.of r (List.mem_of_getElem? here)
  obtain ⟨stream', c', saved', loaded', of', view, -⟩ := of.loadState h.of []
  rw [saved] at saved'
  cases saved'
  rw [List.append_nil, loaded] at loaded'
  cases loaded'
  refine h.turn (line.take (k + 1)) ?_ of' view.symm
  have inside := (List.getElem?_eq_some_iff.mp here).1
  rw [List.getLast?_eq_getElem?, List.length_take, Nat.min_eq_left inside]
  exact (List.getElem?_take_of_lt (Nat.lt_succ_self k)).trans here

theorem Archive.Valid.apply {delta rest : Bytes} (logged : FromLog a.log delta)
    (applied : b.deltaApply delta = (.ok rest, c)) :
    (a.turn (a.line ++ [⟨c, delta⟩])).Valid inv base o c := by
  obtain ⟨d, rfl, declares⟩ := logged.honest o.fitsPages h.log
  obtain ⟨c', applied', of, view⟩ := h.of.deltaApply d declares []
  rw [List.append_nil, applied] at applied'
  cases applied'
  exact h.extend declares of view.symm

end

end Steps

theorem History.valid {o : Block} (of : o.Of inv base o) {a : Archive} {b : Block}
    (h : History Block.Watched o a b) : a.Valid inv base o b := by
  induction h with
  | origin =>
    refine ⟨of, fun line member => ?_, List.mem_singleton.mpr rfl, by simp, ⟨_, rfl, .refl _ _ _⟩⟩
    rw [List.mem_singleton.mp member]
    refine ⟨fun r is => ?_, fun k r r' _ next => ?_⟩
    · rw [List.mem_singleton.mp is]
      exact of
    · simp at next
  | activate _ ih =>
    obtain ⟨r, last, view⟩ := ih.ends
    refine { ih with of := ih.of.activate, ends := ⟨r, last, fun i hi visible => ?_⟩ }
    rw [view i hi visible]
    exact (Block.activate_view _ i).symm
  | frame ops _ watched saved ih => exact ih.frame watched saved
  | load _ known here saved loaded ih => exact ih.load known here saved loaded
  | apply _ _ logged applied ih => exact ih.apply logged applied

/-- Anchor plus deltas is the run: on the current timeline, the state of record `k` and the
deltas after it, composed or not, give what record `m` was. -/
theorem History.replays {x : Block} (built : Built 0 x) {a : Archive} {b : Block}
    (h : History Block.Watched x.sealNow.2 a b) {k m : Nat} {r s : Record} (le : k ≤ m)
    (anchor : a.line[k]? = some r) (target : a.line[m]? = some s) {streams : List Bytes}
    (composed : Composed (((a.line.drop (k + 1)).take (m - k)).map Record.delta) streams) :
    ∃ saved c e, r.state.saveState = .ok saved ∧ b.loadState saved = (.ok [], c) ∧
      c.applyAll streams = some e ∧
      ∀ i < x.npages, x.hidden i = false → e.view i = s.state.view i := by
  have valid := h.valid built.of
  have line := valid.lines _ valid.current
  have of := line.of r (List.mem_of_getElem? anchor)
  rw [← Nat.add_sub_of_le le] at target
  obtain ⟨ds, deltas, honest, ends⟩ := line.effects anchor target
  rw [deltas] at composed
  obtain ⟨es, rfl, honest', same⟩ := composed.effects x.sealNow.2.fitsPages honest
  obtain ⟨saved, c, written, loaded, ofC, viewC, -⟩ := of.loadState valid.of []
  obtain ⟨e, applied, -, viewE⟩ := ofC.applyAll es honest'
  rw [List.append_nil] at loaded
  have all := viewE.trans ((viewC.effects es).trans (same ▸ ends))
  refine ⟨saved, c, e, written, loaded, applied, fun i hi visible => all i ?_ visible⟩
  rw [Control.npages_congr built.fresh.sealed.2.2.2.2.2]
  exact hi

end Valid

/-! ## A page the tracker loses -/

theorem Block.onePage_watched : onePage.sealNow.2.Watched := by
  intro i inside
  obtain rfl : i = 0 := Nat.lt_one_iff.mp inside
  intro _ opens
  exact absurd opens (by decide +kernel)

/-- A frame whose write a delta carries. -/
theorem History.replays_onePage : ∃ delta c,
    (Block.onePage.sealNow.2.epochBegin.2.runOps [.write 0 (.fill 1)]).deltaSave true =
      (.ok delta, c) ∧
    ∃ saved d e, Block.onePage.sealNow.2.saveState = .ok saved ∧ c.loadState saved = (.ok [], d) ∧
      d.applyAll [delta] = some e ∧
      ∀ i < Block.onePage.npages, Block.onePage.hidden i = false → e.view i = c.view i := by
  have of := Block.onePage_built.of
  obtain ⟨d, saved, -⟩ := of.frame Block.onePage_watched [.write 0 (.fill 1)]
  refine ⟨d.encode, _, Prod.ext saved rfl, ?_⟩
  exact replays Block.onePage_built
    (.frame _ .origin Block.onePage_watched (Prod.ext saved rfl)) (Nat.zero_le 1) rfl rfl .refl

/-- A frame that plans a state and then changes the protection of a page the plan owes. -/
def Block.owing : Block :=
  ((onePage.sealNow.2.epochBegin.2.runOps
    [.write 0 (.fill 1), .statePlan (some fun _ => .zero) 0x10000,
      .mprotect (pagesAt 0 1) .rwx]).deltaSave true).2

/-- The frame after it: the plan is finished, and the page is written. -/
def Block.paid : Block :=
  ((owing.epochBegin.2.runOps [.planFinish, .write 0 (.fill 2)]).deltaSave true).2

/-- A delta with nothing in it. -/
def Delta.empty (n : Nat) : Delta n where
  status := []
  data := []
  statusAscends := StatusEntry.ascending_nil
  dataAscends := by simp [Ascending]
  statusInside := by simp
  dataInside := by simp
  dataWord := by simp

/-- The write of the second frame is in no delta: the page was left out when that frame's
epoch began, since the plan kept it read-only, and finishing the plan let it go. -/
theorem History.replay_loses_write : ∃ delta, History (fun _ => True) Block.onePage.sealNow.2
      { log := [(Delta.empty 1).encode, delta]
        lines := [[⟨Block.onePage.sealNow.2, []⟩, ⟨Block.owing, delta⟩,
            ⟨Block.paid, (Delta.empty 1).encode⟩],
          [⟨Block.onePage.sealNow.2, []⟩, ⟨Block.owing, delta⟩],
          [⟨Block.onePage.sealNow.2, []⟩]]
        line := [⟨Block.onePage.sealNow.2, []⟩, ⟨Block.owing, delta⟩,
          ⟨Block.paid, (Delta.empty 1).encode⟩] } Block.paid ∧
    ¬ ∃ saved c e, Block.owing.saveState = .ok saved ∧ Block.paid.loadState saved = (.ok [], c) ∧
      c.applyAll [(Delta.empty 1).encode] = some e ∧
      ∀ i < Block.onePage.npages, Block.onePage.hidden i = false →
        e.view i = Block.paid.view i := by
  have of := Block.onePage_built.of
  have owing : Block.owing.Of _ _ Block.onePage.sealNow.2 :=
    ((of.event (e := .epochBegin) trivial).runOps _).event (e := .deltaSave true) trivial
  have paid : Block.paid.Of _ _ Block.onePage.sealNow.2 :=
    ((owing.event (e := .epochBegin) trivial).runOps _).event (e := .deltaSave true) trivial
  refine ⟨_, .frame _ (.frame _ .origin trivial (Prod.ext rfl rfl)) trivial
    (Prod.ext (by decide +kernel) rfl), ?_⟩
  rintro ⟨saved, c, e, written, loaded, applied, same⟩
  obtain ⟨saved', c', written', loaded', ofC, viewC, -⟩ := owing.loadState paid []
  rw [written] at written'
  cases written'
  rw [List.append_nil, loaded] at loaded'
  cases loaded'
  obtain ⟨e', done, -, viewE⟩ := ofC.deltaApply (Delta.empty 1) (by simp [Declares, Delta.empty]) []
  have done' : c.deltaApply (Delta.empty 1).encode = (.ok [], e') := done
  rw [Block.applyAll, done'] at applied
  cases applied
  have mem := congrArg PageView.mem
    ((same 0 Nat.one_pos rfl).symm.trans ((viewE 0 Nat.one_pos rfl).trans
      (viewC 0 Nat.one_pos rfl)))
  exact absurd (PageBytes.fill_inj mem) (by decide)

end MiniBox
