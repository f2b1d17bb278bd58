import MiniBox.Block.Baseline

/-!
# Loading what was saved

A load of a stream `save_state` wrote, on a block that has a baseline for each page it
would have to put back, goes through, reads that stream and nothing after it, and leaves
each page as `Page.Restored` says: a dirty page with the bytes the state carries, a clean
one with what this block has for its baseline.

The two blocks need not be the same machine.  What they share is the hash, the addresses
and the invisible pages, as the format has them; whether the result is the machine that
saved the state is a question about the two baselines.
-/

namespace MiniBox

open Lib

/-! ## One page -/

/-- What a load leaves on a visible page that the state has clean. -/
def Page.sealed (p : Page) : PageBytes := if p.dirty then p.baseline.getD p.mem else p.mem

/-- A page `was` after a load of a state in which it is `state`. -/
structure Page.Restored (was state now : Page) : Prop where
  flag : now.invisible = was.invisible
  status : now.status = state.status
  dirty : was.invisible = false → now.dirty = state.dirty
  mem : was.invisible = false → now.mem = if state.dirty then state.mem else was.sealed
  hidden : was.invisible = true → now.dirty = was.dirty ∧ now.mem = was.mem

/-- A page but for what a refresh changes. -/
def Page.Renoted (p q : Page) : Prop := ∃ held unheldBit, q = { p with held, unheldBit }

theorem Page.Renoted.refreshed {p q : Page} (h : p.Renoted q) (swappedIn : Bool) :
    p.Renoted (q.refreshed swappedIn) := by
  obtain ⟨held, unheldBit, rfl⟩ := h
  cases swappedIn <;> exact ⟨_, _, rfl⟩

theorem Page.Restored.refreshed {was state now : Page} (h : was.Restored state now)
    (swappedIn : Bool) : was.Restored state (now.refreshed swappedIn) := by
  cases swappedIn <;> exact ⟨h.flag, h.status, h.dirty, h.mem, h.hidden⟩

/-- The bytes and the dirty flag of a visible page, from a stream that has them. -/
theorem Load.visiblePage_restores {l : Load} {i : Nat} {newDirty : Bool} {bytes : PageBytes}
    {rest : Bytes}
    (present : (l.block.page i).dirty = true → (l.block.page i).snap ≠ .none)
    (stream : l.rest = (if newDirty then bytes.val else []) ++ rest) :
    ∃ g, l.visiblePage i newDirty = (⟨l.pending.onPage i g, rest⟩, none) ∧
      ∀ x, x.page = l.block.page i →
        (g x).page.invisible = x.page.invisible ∧ (g x).page.dirty = newDirty ∧
          (g x).page.mem = if newDirty then bytes else x.page.sealed := by
  have shadowed : ∀ x : Track, (shadowRewritten x).page.invisible = x.page.invisible ∧
      (shadowRewritten x).page.dirty = x.page.dirty ∧ (shadowRewritten x).page.mem =
      x.page.mem := by
    intro x
    unfold shadowRewritten
    split_ifs <;> exact ⟨rfl, rfl, rfl⟩
  have emptied : ∀ {b : Bool}, b = false → l.rest = (if b then bytes.val else []) ++ rest →
      l.rest = rest := by
    intro b clean is
    rw [is, clean]
    rfl
  unfold visiblePage
  dsimp only
  split
  next clean =>
    have whole : (l.onPage i maybeSnapshot).rest = bytes.val ++ rest := stream
    rw [whole, readPage_append]
    refine ⟨fun x => shadowRewritten (setDirty true (setMem bytes (maybeSnapshot x))), ?_,
      fun x _ => ?_⟩
    · simp [onPage, Pending.onPage, Block.onPage_onPage]
    · simp [shadowed, setMem]
  next dirty =>
    split
    next zero =>
      refine ⟨fun x => setDirty false (setMem .zero x), ?_, fun x same => ?_⟩
      · rw [← emptied rfl stream]
        rfl
      · simp [setMem, Page.sealed, same, dirty, Page.baseline, zero]
    next saved data =>
      refine ⟨fun x => setDirty false (setMem saved x), ?_, fun x same => ?_⟩
      · rw [← emptied rfl stream]
        rfl
      · simp [setMem, Page.sealed, same, dirty, Page.baseline, data]
    next none => exact absurd none (present dirty)
  next dirty =>
    have whole : l.rest = bytes.val ++ rest := stream
    rw [whole, readPage_append]
    refine ⟨fun x => shadowRewritten (setDirty true (setMem bytes x)), rfl, fun x _ => ?_⟩
    simp [shadowed, setMem]
  next clean =>
    refine ⟨setDirty false, ?_, fun x same => ?_⟩
    · rw [← emptied rfl stream]
      rfl
    · simp [Page.sealed, same, clean]

/-- A page of a load that is not skipped, once its bytes are in. -/
theorem Load.page_eq {statii dirtii : Nat → UInt8} {l : Load} {i : Nat} {g : Track → Track}
    {rest : Bytes}
    (differs : ¬ (dirtii i = 0 ∧ (l.block.page i).dirtyMap = false ∧
      statii i = (l.block.page i).statusMap))
    (bytes : (if (l.block.page i).invisible then (l, none) else l.visiblePage i (dirtii i != 0)) =
      (⟨l.pending.onPage i g, rest⟩, none)) :
    l.page statii dirtii i =
      (⟨l.pending.change i fun x => noteStatus i (statii i) (g x), rest⟩, none) := by
  have noted := l.noteChange_eq i (fun x => noteStatus i (statii i) (g x)) rest
  rw [← l.onPage_onPage i g] at noted
  unfold Load.page
  dsimp only
  rw [if_neg differs, bytes]
  exact Prod.ext noted rfl

/-- One page of a load, from a stream that carries it if the state has it dirty. -/
theorem Load.page_restores {statii dirtii : Nat → UInt8} {l : Load} {i : Nat} {was state : Page}
    {rest : Bytes} (still : was.Renoted (l.block.page i)) (consistent : was.Consistent)
    (present : was.invisible = false → was.dirty = true → was.snap ≠ .none)
    (status : statii i = state.status) (dirty : (dirtii i != 0) = state.dirty)
    (stream : l.rest = (if !was.invisible && state.dirty then state.mem.val else []) ++ rest) :
    ∃ f, (l.page statii dirtii i = (⟨l.pending.change i f, rest⟩, none)) ∧
      ∀ shared, was.Restored state (f ⟨l.block.page i, shared⟩).page := by
  obtain ⟨held, unheldBit, is⟩ := still
  by_cases same : dirtii i = 0 ∧ (l.block.page i).dirtyMap = false ∧
      statii i = (l.block.page i).statusMap
  · -- the page is in the maps as the state has it: skipped
    obtain ⟨notDirty, clean, unchanged⟩ := same
    have stateClean : state.dirty = false := by rw [← dirty, notDirty]; rfl
    have wasClean : was.dirty = false := by rw [← consistent.dirty, ← clean, is]
    have wasStatus : was.status = state.status := by
      rw [← status, unchanged, is]
      exact consistent.status.symm
    refine ⟨id, ?_, fun shared => ?_⟩
    · rw [l.pending.change_id]
      unfold Load.page
      dsimp only
      rw [if_pos ⟨notDirty, clean, unchanged⟩]
      refine Prod.ext (Load.ext rfl ?_) rfl
      rw [stream, stateClean, Bool.and_false]
      rfl
    · refine ⟨?_, ?_, ?_, ?_, ?_⟩ <;> simp [is, wasStatus, wasClean, stateClean, Page.sealed]
  · cases invisible : was.invisible with
    | true =>
      refine ⟨fun x => noteStatus i (statii i) x, Load.page_eq (g := id) same ?_, fun shared => ?_⟩
      · have hidden : (l.block.page i).invisible = true := by rw [is]; exact invisible
        rw [if_pos hidden]
        refine Prod.ext (Load.ext ?_ ?_) rfl
        · simp [Pending.onPage, Block.onPage_id]
        · rw [stream, invisible]
          rfl
      · refine ⟨?_, ?_, ?_, ?_, ?_⟩ <;> simp [is, invisible, status]
    | false =>
      have visible : (l.block.page i).invisible = false := by rw [is]; exact invisible
      rw [invisible, Bool.not_false, Bool.true_and, ← dirty] at stream
      obtain ⟨g, bytes, does⟩ := @Load.visiblePage_restores l i (dirtii i != 0) state.mem rest
        (by rw [is]; exact present invisible) stream
      refine ⟨fun x => noteStatus i (statii i) (g x), Load.page_eq same ?_, fun shared => ?_⟩
      · rw [visible, if_neg (by decide), bytes]
      · obtain ⟨flag, isDirty, mem⟩ := does ⟨l.block.page i, shared⟩ rfl
        have sealed : (l.block.page i).sealed = was.sealed := by rw [is]; rfl
        rw [noteStatus_page]
        refine ⟨?_, status, fun _ => isDirty.trans dirty, fun _ => ?_, ?_⟩
        · exact flag.trans (visible.trans invisible.symm)
        · rw [← dirty, ← sealed]
          exact mem
        · rw [invisible]
          exact fun contra => Bool.noConfusion contra

/-! ## The header -/

theorem Range.bytes_length (r : Range) : r.bytes.length = 16 := by
  simp [bytes]

namespace Block

theorem statusBytes_length (b : Block) : b.statusBytes.length = b.npages := by
  simp [statusBytes]

theorem dirtyBytes_length (b : Block) : b.dirtyBytes.length = b.npages := by
  simp [dirtyBytes]

theorem statusBytes_getD (b : Block) {i : Nat} (hi : i < b.npages) :
    b.statusBytes.getD i 0 = (b.page i).statusMap := by
  simp [statusBytes, List.getD_eq_getElem?_getD, hi]

theorem dirtyBytes_getD (b : Block) {i : Nat} (hi : i < b.npages) :
    (b.dirtyBytes.getD i 0 != 0) = (b.page i).dirtyMap := by
  simp only [dirtyBytes, List.getD_eq_getElem?_getD, List.getElem?_map, List.getElem?_range hi,
    Option.map_some, Option.getD_some]
  cases (b.page i).dirtyMap <;> decide

/-- A header of the same machine passes. -/
theorem readHeader_saved {a b : Block} (length : a.hash.length = 32)
    (hash : b.hash = a.hash) (addr : b.addr = a.addr) (rest : Bytes) :
    b.readHeader (a.stateHeader ++ rest) = .ok (a.statusBytes, a.dirtyBytes, rest) := by
  have npages : b.npages = a.npages := Control.npages_congr addr
  have header : a.stateHeader ++ rest = stateMagic ++ (a.hash ++ (a.addr.bytes ++
      (a.statusBytes ++ (a.dirtyBytes ++ rest)))) := by
    simp [stateHeader, List.append_assoc]
  unfold readHeader
  rw [header, rd_append (show stateMagic.length = 20 from rfl)]
  simp only [ne_eq, not_true_eq_false, if_false, rd_append length, hash, addr,
    rd_append a.addr.bytes_length, npages, rd_append a.statusBytes_length,
    rd_append a.dirtyBytes_length]

/-! ## The whole load -/

/-- What the load starts from is the machine with nothing changed that a savestate
shows. -/
theorem loadPrologue_page (b : Block) (i : Nat) :
    ∃ held unheldBit planHold epochDirty epochBit statBit, b.loadPrologue.page i =
      { b.page i with held, unheldBit, planHold, epochDirty, epochBit, statBit } := by
  have cleared : ∀ c : Block, ∃ epochDirty epochBit statBit,
      c.epochClear.page i = { c.page i with epochDirty, epochBit, statBit } := by
    intro c
    have page : c.epochClear.page i = c.epochForget.page i := rfl
    rw [page, epochForget_page]
    split_ifs
    · exact ⟨_, _, _, rfl⟩
    · exact ⟨_, _, _, rfl⟩
  have finished : ∃ held unheldBit planHold,
      (if b.planActive then (planFinish { b with loadTouched := false }).2
        else { b with loadTouched := false }).page i =
        { b.page i with held, unheldBit, planHold } := by
    split_ifs with active
    · obtain ⟨plan, is⟩ := Option.isSome_iff_exists.mp active
      rw [planFinish_page (b := { b with loadTouched := false }) is]
      split_ifs
      · rw [planTake_page]
        unfold Page.refreshed
        split_ifs <;> exact ⟨_, _, _, rfl⟩
      · exact ⟨_, _, _, rfl⟩
    · exact ⟨_, _, _, rfl⟩
  obtain ⟨held, unheldBit, planHold, done⟩ := finished
  obtain ⟨epochDirty, epochBit, statBit, page⟩ := cleared _
  refine ⟨held, unheldBit, planHold, epochDirty, epochBit, statBit, ?_⟩
  rw [done] at page
  exact page

theorem loadPrologue_toControl (b : Block) : b.loadPrologue.toControl =
      { b.toControl with loadTouched := false, plan := none, epochActive := false } := by
  have cleared : ∀ c : Block, c.epochClear.toControl =
      { c.toControl with epochActive := false } := by
    intro c
    simp [epochClear]
  unfold loadPrologue
  rw [cleared]
  split_ifs with active
  · rw [planFinish_toControl]
  · have none : b.plan = none := by
      simpa [Control.planActive, Option.isSome_iff_ne_none] using active
    simp [none]

theorem Recorded.loadPrologue {b : Block} (h : b.Recorded) : b.loadPrologue.Recorded := by
  have untouched : Block.Recorded { b with loadTouched := false } :=
    h.congr rfl (.inl rfl) rfl rfl
  unfold Block.loadPrologue
  refine Block.Recorded.epochClear ?_
  split_ifs
  · exact untouched.planFinish
  · exact untouched

/-- The bytes of the pages a savestate carries, from page `k` on. -/
def savedFrom (b : Block) (k : Nat) : Bytes :=
  (List.range' k (b.npages - k)).flatMap fun i =>
    if !(b.page i).invisible && (b.page i).dirty then (b.page i).mem.val else []

theorem saveState_eq {b : Block} (is_sealed : b.isSealed = true) :
    b.saveState = .ok (b.stateHeader ++ b.savedFrom 0) := by
  unfold saveState savedPages savedFrom
  rw [if_neg (by simp [is_sealed]), List.range_eq_range', Nat.sub_zero]
  congr 2
  generalize List.range' 0 b.npages = pages
  induction pages with
  | nil => rfl
  | cons i rest ih =>
    rw [List.flatMap_cons, ← ih, List.filter_cons]
    split_ifs <;> simp

theorem savedFrom_step (b : Block) {k : Nat} (hk : k < b.npages) : b.savedFrom k =
      (if !(b.page k).invisible && (b.page k).dirty then (b.page k).mem.val else []) ++
        b.savedFrom (k + 1) := by
  unfold savedFrom
  rw [show b.npages - k = (b.npages - (k + 1)) + 1 by omega, List.range'_succ, List.flatMap_cons]

theorem savedFrom_end (b : Block) : b.savedFrom b.npages = [] := by
  simp [savedFrom]

end Block

/-- The pages of a load: behind `k` they are restored, from `k` on as they were. -/
def Page.Underway (k : Nat) (was state : Nat → Page) (i : Nat) (now : Page) : Prop :=
  if i < k then (was i).Restored (state i) now else (was i).Renoted now

theorem Page.Underway.refreshed {k : Nat} {was state : Nat → Page} {i : Nat} {now : Page}
    (h : Underway k was state i now) (swappedIn : Bool) :
    Underway k was state i (now.refreshed swappedIn) := by
  unfold Underway at h ⊢
  split_ifs at h ⊢
  · exact h.refreshed swappedIn
  · exact h.refreshed swappedIn

section Loop

variable {a b : Block} {rest : Bytes}

/-- What `b` needs to take up a state of `a`: the same addresses and invisible pages, and
a baseline for each page it may have to put back. -/
structure Block.Accepts (a b : Block) : Prop where
  addr : b.addr = a.addr
  flags : ∀ i, i < a.npages → (b.page i).invisible = (a.page i).invisible
  present : ∀ i, i < a.npages → (b.page i).invisible = false → (b.page i).dirty = true →
    (b.page i).snap ≠ .none

/-- A load into `b` of what `a` saved, before page `k`. -/
structure Load.Midway (a b : Block) (rest : Bytes) (k : Nat) (l : Load) : Prop where
  control : l.block.toControl = b.toControl
  stream : l.rest = a.savedFrom k ++ rest
  pages : ∀ i, Page.Underway k b.page a.page i (l.block.page i)

theorem Load.Midway.step (accepts : a.Accepts b) (recordedA : a.Recorded) (recorded : b.Recorded)
    {k : Nat} (inside : k < a.npages) {l : Load} (h : l.Midway a b rest k) :
    ∃ m, page (a.statusBytes.getD · 0) (a.dirtyBytes.getD · 0) l k = (m, none) ∧
      m.Midway a b rest (k + 1) := by
  have still := h.pages k
  rw [Page.Underway, if_neg (Nat.lt_irrefl k)] at still
  have stream := h.stream
  rw [a.savedFrom_step inside, List.append_assoc, ← accepts.flags k inside] at stream
  have status : a.statusBytes.getD k 0 = (a.page k).status := by
    rw [a.statusBytes_getD inside, (recordedA.consistent k).status]
  have dirty : (a.dirtyBytes.getD k 0 != 0) = (a.page k).dirty := by
    rw [a.dirtyBytes_getD inside, (recordedA.consistent k).dirty]
  obtain ⟨f, does, restored⟩ :=
    @page_restores (a.statusBytes.getD · 0) (a.dirtyBytes.getD · 0) l k _ _ _ still
      (recorded.consistent k) (accepts.present k inside) status dirty stream
  refine ⟨_, does, (Pending.change_toControl _ _ _).trans h.control, rfl, ?_⟩
  refine Pending.change_keeps (fun _ _ h => h.refreshed _) (fun j apart => ?_) ?_
  · have here := h.pages j
    have same : j < k + 1 ↔ j < k := by omega
    simp only [Page.Underway, same] at here ⊢
    exact here
  · rw [Page.Underway, if_pos (Nat.lt_succ_self k)]
    exact restored _

/-- The page loop of a load of what `a` saved. -/
theorem Load.pages_restore (accepts : a.Accepts b) (recordedA : a.Recorded)
    (recorded : b.Recorded) :
    ∃ l, untilStop (page (a.statusBytes.getD · 0) (a.dirtyBytes.getD · 0)) b.npages 0
        ⟨⟨b, none⟩, a.savedFrom 0 ++ rest⟩ = (l, none) ∧
      l.rest = rest ∧ l.block.toControl = b.toControl ∧
      ∀ i, i < a.npages → (b.page i).Restored (a.page i) (l.pending.close.page i) := by
  have npages : b.npages = a.npages := Control.npages_congr accepts.addr
  have start : Midway a b rest 0 ⟨⟨b, none⟩, a.savedFrom 0 ++ rest⟩ := by
    refine ⟨rfl, rfl, fun i => ?_⟩
    rw [Page.Underway, if_neg (Nat.not_lt_zero i)]
    exact ⟨_, _, rfl⟩
  have steps : ∀ (m : Load) k, 0 ≤ k → k < 0 + a.npages → m.Midway a b rest k → _ :=
    fun m k _ hk h => h.step accepts recordedA recorded (by omega)
  obtain ⟨l, ends, done⟩ := untilStop_ok start steps
  rw [Nat.zero_add] at done
  have stream := done.stream
  rw [a.savedFrom_end] at stream
  rw [npages]
  refine ⟨l, ends, stream, done.control, fun i hi => ?_⟩
  have closed : Page.Underway a.npages b.page a.page i (l.pending.close.page i) :=
    Pending.close_keeps (P := Page.Underway a.npages b.page a.page)
      (fun _ _ h => Page.Underway.refreshed h _) done.pages i
  rw [Page.Underway, if_pos hi] at closed
  exact closed

/-- A load of what `a` saved goes through and leaves each page restored. -/
theorem Block.loadState_saved (accepts : a.Accepts b) (recordedA : a.Recorded)
    (recorded : b.Recorded) (is_sealed : b.isSealed = true) (length : a.hash.length = 32)
    (hash : b.hash = a.hash) :
    ∃ c, b.loadState (a.stateHeader ++ a.savedFrom 0 ++ rest) = (.ok rest, c) ∧ c.toControl =
        { b.toControl with loadTouched := true, plan := none, epochActive := false } ∧
      ∀ i, i < a.npages → (b.page i).Restored (a.page i) (c.page i) := by
  have control := b.loadPrologue_toControl
  have still : ∀ i, ∃ held unheldBit planHold epochDirty epochBit statBit, b.loadPrologue.page i =
      { b.page i with held, unheldBit, planHold, epochDirty, epochBit, statBit } :=
    b.loadPrologue_page
  have header : b.loadPrologue.readHeader (a.stateHeader ++ (a.savedFrom 0 ++ rest)) = _ :=
    readHeader_saved length (by rw [control]; exact hash) (by rw [control]; exact accepts.addr) _
  have accepted : a.Accepts { b.loadPrologue with loadTouched := true } := by
    refine ⟨?_, fun i hi => ?_, fun i hi => ?_⟩
    · show b.loadPrologue.addr = a.addr
      rw [control]
      exact accepts.addr
    · obtain ⟨_, _, _, _, _, _, is⟩ := still i
      show (b.loadPrologue.page i).invisible = _
      rw [is]
      exact accepts.flags i hi
    · obtain ⟨_, _, _, _, _, _, is⟩ := still i
      show (b.loadPrologue.page i).invisible = false → (b.loadPrologue.page i).dirty = true → _
      rw [is]
      exact accepts.present i hi
  obtain ⟨l, ends, stream, after, restored⟩ := @Load.pages_restore a _ rest accepted recordedA
    (recorded.loadPrologue.congr rfl (.inl rfl) rfl rfl)
  refine ⟨l.pending.close, ?_, ?_, fun i hi => ?_⟩
  · unfold loadState
    rw [if_neg (by simp [is_sealed]), List.append_assoc]
    dsimp only
    rw [header]
    dsimp only
    rw [ends, stream]
  · rw [Pending.close_toControl]
    refine after.trans ?_
    show { b.loadPrologue.toControl with loadTouched := true } = _
    rw [control]
  · obtain ⟨_, _, _, _, _, _, is⟩ := still i
    have page := restored i hi
    show (b.page i).Restored (a.page i) _
    have same : Block.page { b.loadPrologue with loadTouched := true } i = b.loadPrologue.page i :=
        rfl
    rw [same, is] at page
    exact ⟨page.flag, page.status, page.dirty, page.mem, page.hidden⟩

end Loop

end MiniBox
