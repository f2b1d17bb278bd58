import MiniBox.Block.Records

/-!
# What loads and deltas do

A load and a delta change pages through the mirror, one page at a time.  Each such
step is `Pending.change`: the page is changed, and noted for refreshing if that moved
its own protection.  What a step does to a page is a sequence of a few elementary
changes (`Reload`); a property of pages that survives those survives every load and
every delta, whatever the stream and wherever it stops.
-/

namespace MiniBox

open Lib

/-! ## Elementary changes -/

variable {i nstatus : Nat} {x y : Track} {s t : Pending} {f : Track → Track} {P : Nat → Page → Prop}
  {base : Nat → PageBytes → Prop} {l : Load} {b : Block} {stream : Bytes}

/-- The bytes a snapshot puts back. -/
def Page.baseline (p : Page) : Option PageBytes :=
  match p.snap with
  | .none => none
  | .zero => some .zero
  | .data bytes => some bytes

/-- One change a load or a delta makes to page `i`.  `base` is what a delta may
declare clean. -/
inductive Reload (base : PageBytes → Prop) (i : Nat) (x : Track) : Track → Prop where
  | snapshot : Reload base i x (maybeSnapshot x)
  | store (bytes : PageBytes) : x.page.snap ≠ .none → Reload base i x
      (setDirty true (setMem bytes x))
  | rewrite (bytes : PageBytes) : x.page.dirty = true → Reload base i x (setMem bytes x)
  | revert {bytes : PageBytes} : x.page.baseline = some bytes →
      Reload base i x (setDirty false (setMem bytes x))
  | back {bytes : PageBytes} : base bytes → x.page.invisible = false → x.page.snap ≠ .none →
      Reload base i x (setDirty false (setMem bytes x))
  | again : Reload base i x (setDirty x.page.dirty x)
  | shadow : Reload base i x (shadowRewritten x)
  | restatus (status : UInt8) : Reload base i x (noteStatus i status x)

abbrev Reloads (base : PageBytes → Prop) (i : Nat) : Track → Track → Prop :=
  Relation.ReflTransGen (Reload base i)

theorem Reload.faithful {base : PageBytes → Prop} (h : Reload base i x y) (sane : x.Sane i) :
    y.Sane i ∧ x.Balanced i y := by
  cases h with
  | snapshot => exact maybeSnapshot_faithful i x sane
  | store bytes _ => exact (setMem_faithful i bytes).comp (setDirty_faithful i true) x sane
  | rewrite bytes _ => exact setMem_faithful i bytes x sane
  | revert _ => exact (setMem_faithful i _).comp (setDirty_faithful i false) x sane
  | back _ _ _ => exact (setMem_faithful i _).comp (setDirty_faithful i false) x sane
  | again => exact setDirty_faithful i _ x sane
  | shadow => exact shadowRewritten_faithful i x sane
  | restatus status => exact noteStatus_faithful i status x sane

theorem Reloads.faithful {base : PageBytes → Prop} (h : Reloads base i x y) (sane : x.Sane i) :
    y.Sane i ∧ x.Balanced i y := by
  induction h with
  | refl => exact ⟨sane, .refl i x⟩
  | tail _ last ih =>
    obtain ⟨after, balanced⟩ := last.faithful ih.1
    exact ⟨after, ih.2.trans balanced⟩

theorem Reloads.keeps {base : PageBytes → Prop} (h : Reloads base i x y) {P : Page → Prop}
    (step : ∀ x y, Reload base i x y → P x.page → P y.page) (initial : P x.page) : P y.page := by
  induction h with
  | refl => exact initial
  | tail _ last ih => exact step _ _ last ih

/-! ## One page changed -/

/-- Page `i` changed, and noted if its protection moved. -/
def Pending.change (s : Pending) (i : Nat) (f : Track → Track) : Pending :=
  let after := s.onPage i f
  if (after.block.page i).nativeProt ≠ (s.block.page i).nativeProt then after.note i else after

theorem Block.onPage_id (b : Block) (i : Nat) : b.onPage i id = b := by
  unfold onPage
  simp

theorem Block.onPage_onPage (b : Block) (i : Nat) (f g : Track → Track) :
    (b.onPage i f).onPage i g = b.onPage i fun x => g (f x) := by
  unfold onPage
  simp

theorem Pending.change_id (s : Pending) (i : Nat) : s.change i id = s := by
  unfold change onPage
  simp [Block.onPage_id]

theorem Load.noteChange_eq (l : Load) (i : Nat) (f : Track → Track) (rest : Bytes) :
    ({ l.onPage i f with rest } : Load).noteChange i (l.block.page i).nativeProt =
      ⟨l.pending.change i f, rest⟩ := by
  unfold noteChange Pending.change
  exact (apply_ite (Load.mk · rest) ..).symm

theorem Load.onPage_onPage (l : Load) (i : Nat) (f g : Track → Track) :
    (l.onPage i f).onPage i g = l.onPage i fun x => g (f x) := by
  simp only [onPage, Pending.onPage, Block.onPage_onPage]

namespace Pending

@[simp] theorem change_toControl (s : Pending) (i : Nat) (f : Track → Track) :
    (s.change i f).block.toControl = s.block.toControl := by
  unfold change
  dsimp only
  split_ifs <;> simp [onPage]

theorem change_recorded (h : s.block.Recorded) (hi : i < s.block.npages)
    {base : PageBytes → Prop} (reloads : ∀ x, x.page = s.block.page i → Reloads base i x (f x)) :
    (s.change i f).block.Recorded := by
  have changed : (s.onPage i f).block.Recorded := by
    have same : s.block.onPage i f = s.block.onPage i fun _ => f ⟨s.block.page i, s.block.shared⟩ :=
      rfl
    show (s.block.onPage i f).Recorded
    obtain ⟨sane, balanced⟩ := (reloads ⟨s.block.page i, s.block.shared⟩ rfl).faithful (h.sane hi)
    exact h.onPage_of hi sane balanced
  unfold change
  dsimp only
  split_ifs
  · exact changed.note i
  · exact changed

theorem change_keeps (refreshed : ∀ j p, P j p → P j (p.refreshed s.block.swappedIn))
    (apart : ∀ j, j ≠ i → P j (s.block.page j))
    (here : P i (f ⟨s.block.page i, s.block.shared⟩).page) :
    ∀ j, P j ((s.change i f).block.page j) := by
  have changed : ∀ j, P j ((s.onPage i f).block.page j) := by
    intro j
    unfold onPage
    rw [Block.onPage_page]
    split_ifs with same
    · rw [same]
      exact here
    · exact apart j same
  unfold change
  dsimp only
  split_ifs
  · exact note_keeps (s := s.onPage i f) refreshed changed i
  · exact changed

theorem change_ordered (h : s.Ordered) (i : Nat) (f : Track → Track) : (s.change i f).Ordered := by
  unfold change
  dsimp only
  split_ifs
  · exact Ordered.note (s := s.onPage i f) h i
  · exact h

/-- A change is in step up to `L` when a change that keeps the page's own protection
is an `L`. -/
theorem change_inStep {L : Page → Page → Prop} (same : ∀ p, L p p) (ordered : s.Ordered)
    (inside : i < s.block.npages)
    (quiet : (f ⟨s.block.page i, s.block.shared⟩).page.nativeProt = (s.block.page i).nativeProt →
      L (s.block.page i) (f ⟨s.block.page i, s.block.shared⟩).page) :
    s.close.InStep L (s.change i f).close := by
  have here : ((s.onPage i f).block.page i) = (f ⟨s.block.page i, s.block.shared⟩).page := by
    simp [onPage]
  unfold change
  dsimp only
  rw [here]
  split_ifs with moved
  · exact note_inStep same ordered inside
  · exact onPage_inStep same inside (quiet (not_not.mp moved))

/-! ## A page of a load -/

/-- What happens to page `i` in one step of a load or a delta: it changes and is noted
if its protection moved, or, when the stream ends in it, it only becomes dirtier. -/
def Reloaded (base : PageBytes → Prop) (i : Nat) (s t : Pending) : Prop :=
  ∃ f, (∀ x, x.page = s.block.page i → Reloads base i x (f x)) ∧
    (t = s.change i f ∨ t = s.onPage i f ∧ ∀ x, x.page = s.block.page i →
      (f x).page.status = x.page.status ∧ x.page.Wider (f x).page)

end Pending

theorem maybeSnapshot_snap (x : Track) : (maybeSnapshot x).page.snap ≠ .none := by
  rw [maybeSnapshot_page]
  cases x.page.snap <;> simp

/-- A page that only becomes dirty stays as writable as it was. -/
theorem Page.dirtied_wider {p q : Page} (status : q.status = p.status)
    (hold : q.planHold = p.planHold) (hot : q.hot = p.hot) (held : q.held = p.held)
    (dirty : p.dirty = true → q.dirty = true) : p.Wider q := by
  refine .of_status status fun writable => ?_
  rw [nativeProt_writable] at writable ⊢
  simp only [opens, status, hold, hot, held] at writable ⊢
  grind

/-- What a load does to a visible page before its status, one case for each of the four
ways the dirty flag goes. -/
theorem Load.visiblePage_cases (l : Load) (i : Nat) (newDirty : Bool) :
    ∃ f, (l.visiblePage i newDirty).1.pending = l.pending.onPage i f ∧
      (∀ x, x.page = l.block.page i → Reloads (fun _ => False) i x (f x)) ∧
      ((l.visiblePage i newDirty).2 ≠ none → ∀ x, x.page = l.block.page i →
        (f x).page.status = x.page.status ∧ x.page.Wider (f x).page) := by
  unfold visiblePage
  dsimp only
  split
  next clean =>
    -- clean to dirty: the baseline is copied before the stream's bytes go in
    split
    next bytes short =>
      refine ⟨fun x => setDirty true (setMem bytes (maybeSnapshot x)), ?_, fun x _ => ?_,
        fun _ x _ => ?_⟩
      · simp [onPage, Pending.onPage, Block.onPage_onPage]
      · exact .tail (.single .snapshot) (.store bytes (maybeSnapshot_snap x))
      · refine ⟨by simp [setMem], Page.dirtied_wider ?_ ?_ ?_ ?_ ?_⟩ <;> simp [setMem]
    next bytes rest whole =>
      refine ⟨fun x => shadowRewritten (setDirty true (setMem bytes (maybeSnapshot x))), ?_,
        fun x _ => ?_, by simp⟩
      · simp [onPage, Pending.onPage, Block.onPage_onPage]
      · exact .tail (.tail (.single .snapshot) (.store bytes (maybeSnapshot_snap x))) .shadow
  next dirty =>
    -- dirty to clean: the baseline is put back, if there is one
    split
    next zero =>
      refine ⟨fun x => setDirty false (setMem .zero x), rfl, fun x same => ?_, by simp⟩
      refine .single (.revert ?_)
      rw [same, Page.baseline, zero]
    next bytes data =>
      refine ⟨fun x => setDirty false (setMem bytes x), rfl, fun x same => ?_, by simp⟩
      refine .single (.revert ?_)
      rw [same, Page.baseline, data]
    · refine ⟨id, by simp [Pending.onPage, Block.onPage_id], fun x _ => .refl, fun _ x _ => ?_⟩
      exact ⟨rfl, .refl _⟩
  next dirty =>
    split
    next bytes short =>
      refine ⟨setMem bytes, rfl, fun x same => .single (.rewrite bytes ?_), fun _ x _ => ?_⟩
      · rw [same, dirty]
      · refine ⟨rfl, Page.dirtied_wider ?_ ?_ ?_ ?_ ?_⟩ <;> simp [setMem]
    next bytes rest whole =>
      refine ⟨fun x => shadowRewritten (setDirty true (setMem bytes x)), rfl, fun x same => ?_,
        by simp⟩
      have flag : (setMem bytes x).page.dirty = true := by rw [← dirty, ← same]; rfl
      have kept : Reload (fun _ => False) i (setMem bytes x) (setDirty _ (setMem bytes x)) := .again
      rw [flag] at kept
      exact .tail (.tail (.single (.rewrite bytes flag)) kept) .shadow
  next clean =>
    refine ⟨setDirty false, rfl, fun x same => ?_, by simp⟩
    have kept : Reload (fun _ => False) i x (setDirty x.page.dirty x) := .again
    rw [same, clean] at kept
    exact .single kept

theorem Load.page_reloaded (statii dirtii : Nat → UInt8) (l : Load) (i : Nat) :
    l.pending.Reloaded (fun _ => False) i (l.page statii dirtii i).1.pending := by
  unfold page
  dsimp only
  split
  · exact ⟨id, fun x _ => .refl, .inl (l.pending.change_id i).symm⟩
  · have noted : ∀ (f : Track → Track) (m : Load), m.pending = l.pending.onPage i f →
        ((m.onPage i (noteStatus i (statii i))).noteChange i (l.block.page i).nativeProt).pending =
          l.pending.change i fun x => noteStatus i (statii i) (f x) := by
      intro f m pending
      have moved : m = { l.onPage i f with rest := m.rest } := Load.ext pending rfl
      have changed := l.noteChange_eq i (fun x => noteStatus i (statii i) (f x)) m.rest
      rw [← l.onPage_onPage i f] at changed
      rw [moved]
      exact congrArg Load.pending changed
    cases invisible : (l.block.page i).invisible with
    | true =>
      refine ⟨fun x => noteStatus i (statii i) x, fun x _ => .single (.restatus _), .inl ?_⟩
      exact noted id l (by simp [Pending.onPage, Block.onPage_id])
    | false =>
      obtain ⟨f, pending, reloads, stopped⟩ := l.visiblePage_cases i (dirtii i != 0)
      simp only [Bool.false_eq_true, if_false]
      split
      next m reason is =>
        rw [is] at pending stopped
        exact ⟨f, reloads, .inr ⟨pending, stopped (by simp)⟩⟩
      next m is =>
        rw [is] at pending
        refine ⟨fun x => noteStatus i (statii i) (f x), fun x same => ?_, .inl ?_⟩
        · exact .tail (reloads x same) (.restatus _)
        · exact noted f m pending

/-! ## An entry of a delta -/

/-- An entry of the status list, applied. -/
def Pending.applyStatus (s : Pending) (e : StatusEntry) : Pending :=
  s.change e.idx (noteStatus e.idx e.status)

/-- An entry of the data list, applied. -/
def Pending.applyData (s : Pending) (e : DataEntry) : Pending :=
  s.change e.page fun x => deltaWrite e.clean e.bytes (maybeSnapshot x)

theorem Pending.applyStatus_reloaded (base : PageBytes → Prop) (s : Pending) (e : StatusEntry) :
    s.Reloaded base e.idx (s.applyStatus e) :=
  ⟨noteStatus e.idx e.status, fun _ _ => .single (.restatus _), .inl rfl⟩

theorem deltaWrite_reloads {base : PageBytes → Prop} {clean : Bool} {bytes : PageBytes}
    (snap : x.page.snap ≠ .none) (good : clean = true → x.page.invisible = false → base bytes) :
    Reloads base i x (deltaWrite clean bytes x) := by
  unfold deltaWrite
  dsimp only
  split_ifs with given
  · simp only [Bool.and_eq_true, Bool.not_eq_true'] at given
    exact .single (.back (good given.1 given.2) given.2 snap)
  · exact .tail (.single (.store bytes snap)) .shadow

theorem Pending.applyData_reloaded {base : PageBytes → Prop} {e : DataEntry}
    (good : e.clean = true → (s.block.page e.page).invisible = false → base e.bytes) :
    s.Reloaded base e.page (s.applyData e) := by
  refine ⟨_, fun x same => ?_, .inl rfl⟩
  refine .head .snapshot (deltaWrite_reloads (maybeSnapshot_snap x) fun clean visible => ?_)
  refine good clean ?_
  rw [maybeSnapshot_page] at visible
  rw [← same]
  exact visible

/-- What one turn of the status loop can do. -/
theorem Load.statusEntry_cases (l : Load) (k : Nat) : (l.statusEntry k).1.pending = l.pending ∨
      ∃ e : StatusEntry, e.idx < l.block.npages ∧ (l.statusEntry k).1.pending =
      l.pending.applyStatus e := by
  unfold statusEntry
  split
  · exact .inl rfl
  next idx rest _ =>
    split
    · exact .inl rfl
    next status rest' _ =>
      dsimp only
      split
      · exact .inl rfl
      next inside =>
        exact .inr ⟨⟨leVal idx, status.getD 0 0⟩, by simpa using inside,
          congrArg pending (l.noteChange_eq _ _ rest')⟩

/-- What one turn of the data loop can do: stop, apply the entry at the head of the
stream, or stop in the middle of an entry. -/
theorem Load.dataEntry_cases (l : Load) (k : Nat) : (∃ reason, l.dataEntry k = (l, some reason)) ∨
      (∃ e rest, DataEntry.read l.rest = .ok (e, rest) ∧ e.page < l.block.npages ∧
        l.dataEntry k = (⟨l.pending.applyData e, rest⟩, none)) ∨
      ∃ i bytes reason, i < l.block.npages ∧ (l.dataEntry k).2 = some reason ∧
        (l.dataEntry k).1.pending =
          l.pending.change i fun x => setDirty true (setMem bytes (maybeSnapshot x)) := by
  unfold dataEntry DataEntry.read
  split
  · exact .inl ⟨_, rfl⟩
  next idx rest first =>
    dsimp only
    split
    · exact .inl ⟨_, rfl⟩
    next inside =>
      have same : ∀ old, (readPage old rest).2 = (readPage .zero rest).2 ∧
          ((readPage .zero rest).2 ≠ none → readPage old rest = readPage .zero rest) := by
        intro old
        unfold readPage
        split_ifs <;> simp
      split
      next bytes short =>
        exact .inr (.inr ⟨_, bytes, _, by simpa using inside, rfl,
          by rw [l.onPage_onPage]; exact congrArg pending (l.noteChange_eq _ _ l.rest)⟩)
      next bytes rest' whole =>
        obtain ⟨left, again⟩ := same ((l.onPage (deltaPage (leVal idx)) maybeSnapshot).block.page
          (deltaPage (leVal idx))).mem
        rw [whole] at left again
        have read : readPage .zero rest = (bytes, some rest') := (again (by simp [← left])).symm
        refine .inr (.inl ⟨⟨leVal idx, bytes⟩, rest', ?_, Nat.not_le.mp inside, ?_⟩)
        · rw [first]
          dsimp only
          rw [read]
        rw [l.onPage_onPage]
        exact Prod.ext (l.noteChange_eq _ _ rest') rfl

/-! ## Whole loads and deltas -/

namespace Pending

/-- One step of a load or a delta: a page of the block reloaded, or the run closed. -/
inductive Step (base : Nat → PageBytes → Prop) (s : Pending) : Pending → Prop where
  | page {i : Nat} {t : Pending} : i < s.block.npages → s.Reloaded (base i) i t → Step base s t
  | close : Step base s ⟨s.close, none⟩

abbrev Steps (base : Nat → PageBytes → Prop) : Pending → Pending → Prop :=
  Relation.ReflTransGen (Step base)

theorem Reloaded.toControl {base : PageBytes → Prop} (h : s.Reloaded base i t) :
    t.block.toControl = s.block.toControl := by
  obtain ⟨f, -, changed | ⟨only, -⟩⟩ := h
  · rw [changed, change_toControl]
  · rw [only]
    rfl

theorem Step.toControl (h : s.Step base t) : t.block.toControl = s.block.toControl := by
  cases h with
  | page _ reloaded => exact reloaded.toControl
  | close => exact s.close_toControl

section

variable (h : Steps base s t)
include h

theorem Steps.toControl : t.block.toControl = s.block.toControl := by
  induction h with
  | refl => rfl
  | tail _ last ih => rw [last.toControl, ih]

theorem Steps.recorded (recorded : s.block.Recorded) : t.block.Recorded := by
  induction h with
  | refl => exact recorded
  | @tail t u steps last ih =>
    cases last with
    | close => exact ih.close
    | page inside reloaded =>
      obtain ⟨f, reloads, changed | ⟨only, -⟩⟩ := reloaded
      · rw [changed]
        exact change_recorded ih inside reloads
      · rw [only]
        obtain ⟨sane, balanced⟩ := (reloads ⟨_, t.block.shared⟩ rfl).faithful (ih.sane inside)
        exact ih.onPage_of inside sane balanced

/-- A property of pages that survives the elementary changes and refreshing survives
the whole. -/
theorem Steps.keeps (refreshed : ∀ j p, P j p → P j (p.refreshed s.block.swappedIn))
    (reload : ∀ j x y, Reload (base j) j x y → P j x.page → P j y.page)
    (initial : ∀ j, P j (s.block.page j)) : ∀ j, P j (t.block.page j) := by
  induction h with
  | refl => exact initial
  | @tail t u steps last ih =>
    rw [← toControl steps] at refreshed
    cases last with
    | close => exact close_keeps refreshed ih
    | @page i _ inside reloaded =>
      obtain ⟨f, reloads, changed | ⟨only, -⟩⟩ := reloaded
      · rw [changed]
        refine change_keeps refreshed (fun j _ => ih j) ?_
        exact (reloads ⟨_, t.block.shared⟩ rfl).keeps (reload i) (ih i)
      · rw [only]
        intro j
        show P j ((t.block.onPage i f).page j)
        rw [Block.onPage_page]
        split_ifs with same
        · rw [same]
          exact (reloads ⟨_, t.block.shared⟩ rfl).keeps (reload i) (ih i)
        · exact ih j

theorem Steps.ordered (ordered : s.Ordered) : t.Ordered := by
  induction h with
  | refl => exact ordered
  | tail _ last ih =>
    cases last with
    | close => intro run is; cases is
    | page inside reloaded =>
      obtain ⟨f, -, changed | ⟨only, -⟩⟩ := reloaded
      · rw [changed]
        exact change_ordered ih _ f
      · rw [only]
        exact ih

/-- On a 4 KiB host every load and delta keeps the OS's view exact. -/
theorem Steps.inSteps (ordered : s.Ordered) : Block.InSteps Page.Wider s.close t.close := by
  induction h with
  | refl => exact .refl
  | tail steps last ih =>
    have between := Steps.ordered steps ordered
    cases last with
    | close => exact ih
    | page inside reloaded =>
      obtain ⟨f, -, changed | ⟨only, wider⟩⟩ := reloaded
      · rw [changed]
        refine ih.tail (change_inStep Page.Wider.refl between inside fun quiet => ?_)
        rw [Page.Wider, quiet]
        exact Page.Wider.refl _
      · rw [only]
        exact ih.tail (onPage_inStep Page.Wider.refl inside (wider ⟨_, _⟩ rfl).2)

end

end Pending

theorem Load.pages_steps (statii dirtii : Nat → UInt8) (l : Load) :
    Pending.Steps (fun _ _ => False) l.pending
      (untilStop (page statii dirtii) l.block.npages 0 l).1.pending := by
  refine untilStop_inv (P := fun m : Load => Pending.Steps (fun _ _ => False) l.pending m.pending)
    .refl fun m i _ hi steps => steps.tail (.page ?_ (m.page_reloaded statii dirtii i))
  rw [Pending.Steps.toControl steps]
  simpa [block] using hi

theorem Load.statuses_steps (base : Nat → PageBytes → Prop) (l : Load) (count : Nat) :
    Pending.Steps base l.pending (untilStop statusEntry count 0 l).1.pending := by
  refine untilStop_inv (P := fun m : Load => Pending.Steps base l.pending m.pending)
    .refl fun m k _ _ steps => ?_
  rcases m.statusEntry_cases k with same | ⟨e, inside, applied⟩
  · rw [same]
    exact steps
  · rw [applied]
    exact steps.tail (.page inside (m.pending.applyStatus_reloaded _ e))

/-- The data entries a stream starts with, as far as they can be read. -/
def readData : Nat → Bytes → List DataEntry
  | 0, _ => []
  | count + 1, stream =>
    match DataEntry.read stream with
    | .error _ => []
    | .ok (e, rest) => e :: readData count rest

/-- The data entries of a delta's stream. -/
def deltaData (stream : Bytes) : List DataEntry :=
  match rd 8 (stream.drop (29 + leVal ((stream.drop 21).take 8) * 9)) with
  | none => []
  | some (ndata, rest) => readData (leVal ndata) rest

/-- What the entries declare clean is `base`. -/
def Declares (base : Nat → PageBytes → Prop) (entries : List DataEntry) : Prop :=
  ∀ e ∈ entries, e.clean = true → base e.page e.bytes

theorem Load.datas_steps : ∀ {count k : Nat} {l : Load}, Declares base (readData count l.rest) →
    Pending.Steps base l.pending (untilStop dataEntry count k l).1.pending
  | 0, _, _, _ => .refl
  | count + 1, k, l, declares => by
    rw [untilStop]
    rcases l.dataEntry_cases k with ⟨reason, is⟩ | ⟨e, rest, read, inside, is⟩ |
      ⟨i, bytes, reason, inside, stops, cut⟩
    · rw [is]
    · rw [is]
      rw [readData, read] at declares
      have first : l.pending.Step base (l.pending.applyData e) :=
        .page inside (Pending.applyData_reloaded fun clean _ => declares e (by simp) clean)
      refine .head first (datas_steps (l := ⟨_, rest⟩) fun d hd => ?_)
      exact declares d (List.mem_cons_of_mem e hd)
    · have last : l.pending.Step base (l.dataEntry k).1.pending := by
        rw [cut]
        refine .page inside ⟨_, fun x _ => ?_, .inl rfl⟩
        exact .tail (.single .snapshot) (.store bytes (maybeSnapshot_snap x))
      generalize l.dataEntry k = turn at stops last
      obtain ⟨m, answer⟩ := turn
      cases stops
      exact .single last

/-- A status entry takes nine bytes. -/
theorem Load.statusEntry_rest {m : Load} {k : Nat} (h : l.statusEntry k = (m, none)) :
    m.rest = l.rest.drop 9 := by
  unfold statusEntry at h
  split at h
  · cases h
  next idx rest first =>
    split at h
    · cases h
    next status rest' second =>
      dsimp only at h
      split at h
      · cases h
      · have stream : m.rest = rest' := by
          rw [← congrArg (fun r : Load × Option Errno => r.1.rest) h]
          unfold noteChange
          dsimp only
          split_ifs <;> rfl
        obtain ⟨whole, eight⟩ := rd_eq_some.mp first
        obtain ⟨whole', one⟩ := rd_eq_some.mp second
        rw [stream, whole, whole', ← List.append_assoc, List.drop_left']
        rw [List.length_append, eight, one]

theorem Load.statuses_rest : ∀ {count k : Nat} {l m : Load},
    untilStop statusEntry count k l = (m, none) → m.rest = l.rest.drop (count * 9)
  | 0, _, _, _, h => by
    cases h
    simp
  | count + 1, k, l, m, h => by
    rw [untilStop] at h
    split at h
    · cases h
    next n is =>
      rw [statuses_rest h, statusEntry_rest is, List.drop_drop]
      congr 1
      omega

theorem Load.deltaLists_steps
    (declares : ∀ ndata rest, rd 8 (l.rest.drop (nstatus * 9)) = some (ndata, rest) →
      Declares base (readData (leVal ndata) rest)) :
    Pending.Steps base l.pending (l.deltaLists nstatus).1.pending := by
  have statuses := l.statuses_steps base nstatus
  unfold deltaLists
  split
  next m reason is =>
    rw [is] at statuses
    exact statuses
  next m is =>
    rw [is] at statuses
    have closed : Pending.Steps base l.pending ⟨m.pending.close, none⟩ := statuses.tail .close
    dsimp only
    split
    · exact closed
    next ndata rest read =>
      refine closed.trans (datas_steps (l := { pending := ⟨m.pending.close, none⟩, rest }) ?_)
      refine declares ndata rest ?_
      rw [← read, statuses_rest is]

/-- A load, from the machine its prologue leaves. -/
theorem Block.loadState_steps (b : Block) (stream : Bytes) :
    (b.loadState stream).2 = b ∧ b.isSealed = false ∨
      ∃ touched t, Pending.Steps (fun _ _ => False)
        ⟨{ b.loadPrologue with loadTouched := touched }, none⟩ t ∧ (b.loadState stream).2 =
        t.close := by
  unfold loadState
  split
  next unsealed => exact .inl ⟨rfl, by simpa using unsealed⟩
  · refine .inr ?_
    dsimp only
    split
    · exact ⟨b.loadPrologue.loadTouched, _, .refl, rfl⟩
    next statii dirtii rest _ =>
      exact ⟨true, _, Load.pages_steps (statii.getD · 0) (dirtii.getD · 0)
        { pending := { block := { b.loadPrologue with loadTouched := true } }, rest }, rfl⟩

theorem Block.readDeltaHeader_eq {rest : Bytes}
    (h : b.readDeltaHeader stream = .ok (nstatus, rest)) :
    nstatus = leVal ((stream.drop 21).take 8) ∧ rest = stream.drop 29 := by
  unfold readDeltaHeader at h
  split at h
  next magic s₁ first =>
    split_ifs at h
    · cases h
    dsimp only at h
    split at h
    next pages s₂ second =>
      split_ifs at h
      · cases h
      split at h
      next count s₃ third =>
        cases h
        obtain ⟨rfl, l₁⟩ := rd_eq_some.mp first
        obtain ⟨rfl, l₂⟩ := rd_eq_some.mp second
        obtain ⟨rfl, l₃⟩ := rd_eq_some.mp third
        have head : (magic ++ (pages ++ (count ++ rest))).drop 21 = count ++ rest := by
          rw [← List.append_assoc, List.drop_left']
          rw [List.length_append, l₁, l₂]
        refine ⟨?_, ?_⟩
        · rw [head, List.take_left' l₃]
        · rw [show 29 = 21 + 8 from rfl, ← List.drop_drop, head, List.drop_left' l₃]
      · cases h
    · cases h
  · cases h

/-- A delta, whatever its stream. -/
theorem Block.deltaApply_steps (declares : Declares base (deltaData stream)) :
    (∃ touched, (b.deltaApply stream).2 = { b with loadTouched := touched }) ∨
      ∃ t, Pending.Steps base ⟨{ b with loadTouched := true }, none⟩ t ∧
        (b.deltaApply stream).2 = t.close.epochClear := by
  unfold deltaApply
  split
  · exact .inl ⟨b.loadTouched, rfl⟩
  · dsimp only
    split
    · exact .inl ⟨false, rfl⟩
    next nstatus rest header =>
      obtain ⟨rfl, rfl⟩ := readDeltaHeader_eq header
      refine .inr ⟨_, Load.deltaLists_steps (l :=
        { pending := { block := { b with loadTouched := true } }, rest := stream.drop 29 }) ?_, rfl⟩
      intro ndata rest read
      rw [List.drop_drop] at read
      unfold deltaData at declares
      rw [read] at declares
      exact declares

end MiniBox
