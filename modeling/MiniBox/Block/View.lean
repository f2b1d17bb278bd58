import MiniBox.Block.Session

/-!
# What states and deltas are about

A `PageView` is what a savestate and a delta say of a page: its status, whether it is
dirty, and its bytes.  On views a delta is a change to a function (`Delta.effect`), and the
merge of two deltas is the one change after the other.

`PageState` is what a delta can change of a page, the recorded baseline included.  On it an
entry of the status list sets the status, and an entry of the data list writes the page, its
first write taking the baseline (`Block.applied_state`).

The two connections with the block are `Block.applied_view`, what `delta_apply` does to the
visible pages, and `Page.Restored.view`, what `load_state` does to them.
-/

namespace MiniBox

open Lib

/-! ## Views -/

@[ext]
structure PageView where
  status : UInt8
  dirty : Bool
  mem : PageBytes
  deriving DecidableEq

def Page.view (p : Page) : PageView := ⟨p.status, p.dirty, p.mem⟩

def Block.view (b : Block) (i : Nat) : PageView := (b.page i).view

/-- What a delta makes of a machine. -/
def Delta.effect {n : Nat} (d : Delta n) (view : Nat → PageView) (i : Nat) : PageView where
  status := override StatusEntry.idx StatusEntry.status d.status (fun i => (view i).status) i
  dirty := override DataEntry.page (fun e => !e.clean) d.data (fun i => (view i).dirty) i
  mem := override DataEntry.page DataEntry.bytes d.data (fun i => (view i).mem) i

section Effect

variable {n : Nat} {d : Delta n} (view : Nat → PageView)

theorem Delta.effect_status {e : StatusEntry} (listed : e ∈ d.status) :
    (d.effect view e.idx).status = e.status := by
  dsimp only [effect]
  exact override_of_mem d.statusAscends listed _

theorem Delta.effect_status_kept {i : Nat} (apart : ∀ e ∈ d.status, e.idx ≠ i) :
    (d.effect view i).status = (view i).status := by
  dsimp only [effect]
  exact override_of_not_mem apart _

theorem Delta.effect_data {e : DataEntry} (listed : e ∈ d.data) :
    (d.effect view e.page).dirty = !e.clean ∧ (d.effect view e.page).mem = e.bytes := by
  dsimp only [effect]
  rw [override_of_mem d.dataAscends listed, override_of_mem d.dataAscends listed]
  exact ⟨rfl, rfl⟩

theorem Delta.effect_data_kept {i : Nat} (apart : ∀ e ∈ d.data, e.page ≠ i) :
    (d.effect view i).dirty = (view i).dirty ∧ (d.effect view i).mem = (view i).mem := by
  dsimp only [effect]
  rw [override_of_not_mem apart, override_of_not_mem apart]
  exact ⟨rfl, rfl⟩

end Effect

variable {n i : Nat} {inv : Nat → Bool} {v w : Nat → PageView}

/-- A composed delta does what its two parts do in turn. -/
theorem Delta.effect_merge (c d : Delta n) (view : Nat → PageView) :
    (c.merge d).effect view = d.effect (c.effect view) := by
  funext i
  refine PageView.ext ?_ ?_ ?_
  · have merged : override StatusEntry.idx StatusEntry.status _ _ i = _ :=
      override_mergeLater c.statusAscends d.statusAscends (fun i => (view i).status) i
    exact merged
  · have merged : override DataEntry.page (fun e => !e.clean) _ _ i = _ :=
      override_mergeLater c.dataAscends d.dataAscends (fun i => (view i).dirty) i
    exact merged
  · have merged : override DataEntry.page DataEntry.bytes _ _ i = _ :=
      override_mergeLater c.dataAscends d.dataAscends (fun i => (view i).mem) i
    exact merged

/-- The views agree on the visible pages of `n`. -/
def AgreeOn (n : Nat) (inv : Nat → Bool) (v w : Nat → PageView) : Prop :=
  ∀ i, i < n → inv i = false → v i = w i

theorem AgreeOn.refl (n : Nat) (inv : Nat → Bool) (v : Nat → PageView) : AgreeOn n inv v v :=
  fun _ _ _ => rfl

theorem AgreeOn.symm (h : AgreeOn n inv v w) : AgreeOn n inv w v :=
  fun i hi visible => (h i hi visible).symm

theorem AgreeOn.trans {u : Nat → PageView} (h : AgreeOn n inv u v) (k : AgreeOn n inv v w) :
    AgreeOn n inv u w :=
  fun i hi visible => (h i hi visible).trans (k i hi visible)

/-- A delta does the same to views that agree. -/
theorem AgreeOn.effect (h : AgreeOn n inv v w) {m : Nat} (d : Delta m) :
    AgreeOn n inv (d.effect v) (d.effect w) := by
  intro i hi visible
  have same := h i hi visible
  unfold Delta.effect override
  simp only [same]

/-! ## Applying a delta -/

/-- A change to page `i` in a loop that collects runs, the run closed. -/
theorem Pending.change_turn {s : Pending} (below : s.Below i) {f : Track → Track}
    {R : Page → Page → Prop} (refreshed : ∀ p q, R p q → R p (q.refreshed s.block.swappedIn))
    (here : R (s.close.page i) (f ⟨s.close.page i, s.block.shared⟩).page) :
    Turn R i s (s.change i f) := by
  unfold change
  dsimp only
  split_ifs
  · exact note_turn below (refreshed _ _ here)
  · exact onPage_turn below here

@[ext]
structure PageState where
  status : UInt8
  dirty : Bool
  mem : PageBytes
  snap : Snap
  invisible : Bool

def Page.state (p : Page) : PageState := ⟨p.status, p.dirty, p.mem, p.snap, p.invisible⟩

def PageState.view (s : PageState) : PageView := ⟨s.status, s.dirty, s.mem⟩

/-- A page after one entry of the data list. -/
def PageState.write (e : DataEntry) (s : PageState) : PageState :=
  { s with
    dirty := !e.clean || s.invisible
    mem := e.bytes
    snap := if s.snap = .none then .data s.mem else s.snap }

/-- What a delta does to page `i`: its status, then its data. -/
def Delta.onState {n : Nat} (d : Delta n) (i : Nat) (s : PageState) : PageState :=
  let s := match lookup StatusEntry.idx i d.status with
    | some e => { s with status := e.status }
    | none => s
  match lookup DataEntry.page i d.data with
  | some e => s.write e
  | none => s

theorem Page.refreshed_state (swappedIn : Bool) (p : Page) :
    (p.refreshed swappedIn).state = p.state := by
  cases swappedIn with
  | false => rfl
  | true => rfl

theorem Pending.change_state {s : Pending} (below : s.Below i) {f : Track → Track}
    {g : PageState → PageState} (is : ∀ x, (f x).page.state = g x.page.state) :
    Turn (fun p q => q.state = g p.state) i s (s.change i f) :=
  change_turn below (fun _ q h => (q.refreshed_state _).trans h) (is _)

/-- A loop over ascending entries that changes the page of each. -/
theorem Pending.loop_state {α : Type} (key : α → Nat) {f : Pending → α → Pending}
    {g : α → PageState → PageState} (turn : ∀ s e, s.Below (key e) →
      Turn (fun p q => q.state = g e p.state) (key e) s (f s e))
    (b : Block) {entries : List α} (ascends : Ascending key entries) (i : Nat) :
    ((entries.foldl f ⟨b, none⟩).close.page i).state =
      match lookup key i entries with
      | some e => g e (b.page i).state
      | none => (b.page i).state := by
  have loop := loop_page key (b := b) (f := f) (fun s e below _ => turn s e below) ascends
  cases found : lookup key i entries with
  | some e =>
    obtain ⟨listed, rfl⟩ := mem_of_lookup found
    exact loop.1 e listed
  | none => rw [loop.2 i (lookup_eq_none.mp found)]

theorem deltaWrite_state (e : DataEntry) (x : Track) :
    (deltaWrite e.clean e.bytes (maybeSnapshot x)).page.state = x.page.state.write e := by
  have shadowed : ∀ y : Track, (shadowRewritten y).page.state = y.page.state := fun y => by
    unfold shadowRewritten
    split_ifs <;> rfl
  unfold deltaWrite
  dsimp only
  rw [apply_ite Track.page, apply_ite Page.state, shadowed]
  cases clean : e.clean <;> cases invisible : x.page.invisible <;>
    simp [Page.state, PageState.write, setMem, clean, invisible]

/-- Applying a delta does to every page what its lists say. -/
theorem Block.applied_state (b : Block) (d : Delta n) (i : Nat) :
    ((b.applied d).page i).state = d.onState i (b.page i).state := by
  have cleared : ∀ c : Block, (c.epochClear.page i).state = (c.page i).state := by
    intro c
    have page : c.epochClear.page i = c.epochForget.page i := rfl
    rw [page, epochForget_page]
    split_ifs <;> rfl
  have statuses := Pending.loop_state StatusEntry.idx (f := Pending.applyStatus)
    (g := fun e s => { s with status := e.status })
    (fun s e below => Pending.change_state (f := noteStatus e.idx e.status)
      (g := fun s => { s with status := e.status }) below fun x => by simp [Page.state])
    { b with loadTouched := true } d.statusAscends i
  unfold applied Delta.onState
  rw [cleared, Pending.loop_state DataEntry.page (f := Pending.applyData) (g := PageState.write)
    (fun s e below => Pending.change_state below (deltaWrite_state e)) _ d.dataAscends, statuses]
  cases lookup StatusEntry.idx i d.status <;> cases lookup DataEntry.page i d.data <;> rfl

/-- Applying a delta does to the visible pages what it says. -/
theorem Block.applied_view (b : Block) (d : Delta n) (visible : (b.page i).invisible = false) :
    (b.applied d).view i = d.effect b.view i := by
  have state := b.applied_state d i
  have seen : (b.applied d).view i = (d.onState i (b.page i).state).view := by
    rw [← state]
    rfl
  rw [seen]
  unfold Delta.onState Delta.effect override
  cases lookup StatusEntry.idx i d.status <;> cases lookup DataEntry.page i d.data <;>
    simp [PageState.write, PageState.view, Page.state, view, Page.view, visible]

/-! ## Loading a state -/

/-- A restored page is the page of the state, if what the state leaves out is what the
block has sealed. -/
theorem Page.Restored.view {was state now : Page} (h : was.Restored state now)
    (visible : was.invisible = false) (sealed : state.dirty = false → was.sealed = state.mem) :
    now.view = state.view := by
  refine PageView.ext h.status (h.dirty visible) ?_
  show now.mem = state.mem
  rw [h.mem visible]
  cases dirty : state.dirty with
  | false => exact sealed dirty
  | true => rfl

/-- What a sound block has sealed is its baseline. -/
theorem Page.Kept.sealed {base : PageBytes} {p : Page} (h : p.Kept false base) :
    p.sealed = base := by
  unfold Page.sealed
  cases dirty : p.dirty with
  | false => exact h.clean rfl dirty
  | true =>
    have present := h.present dirty rfl
    cases is : p.baseline with
    | none =>
      unfold Page.baseline at is
      split at is
      next none => exact absurd none present
      · cases is
      · cases is
    | some bytes =>
      have same := h.baseline rfl bytes is
      simp [same]

end MiniBox
