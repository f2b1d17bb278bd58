import MiniBox.Block.Arena
import Mathlib.Logic.Relation
import Mathlib.Tactic.Tauto

/-!
# Runs of pages, and protections kept in step

An operation that changes protections here and there collects consecutive pages
into runs and refreshes each run when a page does not extend it (`Pending.note`)
and at its end (`Pending.close`).  What such a loop does is read off the block as
it would be if the run were closed now: noting a page is then refreshing it
(`Pending.note_close`), and an operation on a page outside the run acts on that
page alone (`Pending.onPage_close_page`).

The second half says what keeps the OS's view true.  `Block.InStep L b c` relates
the block before and after an operation, host page by host page: a host page was
given the protection of its group, or kept the one it had while its pages changed
by `L` only.  With `L` the right one it carries over the two invariants the rest
rests on: `Block.Tight`, that no host page mapped writable hides a page to be
held, and on a 4 KiB host `Block.Exact`, that no page is mapped writable that is
not to be.
-/

namespace MiniBox

open Lib

/-! ## Runs of pages to refresh -/

variable {b c : Block} {start count g i j : Nat} {s : Pending} {run : ProtRun} {f : Track → Track}
  {R L : Page → Page → Prop} {P : Nat → Page → Prop} {p q : Page}

/-- `prot_run`, when it is open. -/
structure ProtRun where
  start : Nat
  last : Nat

/-- A block with the run of pages still to be refreshed in it. -/
structure Pending where
  block : Block
  run : Option ProtRun := none

/-- `run_close`. -/
def Pending.close (s : Pending) : Block :=
  match s.run with
  | none => s.block
  | some run => s.block.refreshRange run.start (run.last - run.start + 1)

/-- `run_note`: the page extends the open run, or closes it and opens the
next. -/
def Pending.note (s : Pending) (i : Nat) : Pending :=
  match s.run with
  | none => ⟨s.block, some ⟨i, i⟩⟩
  | some run =>
    if i = run.last + 1 then ⟨s.block, some ⟨run.start, i⟩⟩
    else ⟨s.close, some ⟨i, i⟩⟩

theorem Block.refreshRange_os_touched {b : Block} {start count g : Nat}
    (h : b.swappedIn = true ∧ b.touches start count g) :
    (b.refreshRange start count).os g = b.groupNativeProt g := by
  rw [refreshRange_os, if_pos h]

theorem Block.refreshRange_os_untouched (h : ¬ (b.swappedIn = true ∧ b.touches start count g)) :
    (b.refreshRange start count).os g = b.os g := by
  rw [refreshRange_os, if_neg h]

theorem Block.eq_of (control : b.toControl = c.toControl) (page : ∀ i, b.page i = c.page i)
    (shared : b.shared = c.shared) (os : ∀ g, b.os g = c.os g) :
    b = c := by
  cases b
  cases c
  simp_all [funext_iff]

theorem Page.noted_noted (p : Page) : p.noted.noted = p.noted := by
  have same := p.noted_nativeProt
  rw [noted, same]
  simp [noted, notProtected]

theorem Block.refreshRange_groupNativeProt (b : Block) (start count g : Nat) :
    (b.refreshRange start count).groupNativeProt g = b.groupNativeProt g := by
  refine groupNativeProt_congr (by simp) (fun k => ?_) g
  rw [b.refreshRange_page]
  split_ifs
  · exact ⟨rfl, Page.noted_nativeProt _⟩
  · exact ⟨rfl, rfl⟩

theorem Control.touches_succ {b : Control} (h : 0 < count) :
    b.touches start (count + 1) g ↔ b.touches start count g ∨ b.touches (start + count) 1 g := by
  have pos := b.groupPages_pos
  unfold touches
  rw [show start + (count + 1) + b.groupPages - 1 = start + count + b.groupPages by omega,
    show start + count + 1 + b.groupPages - 1 = start + count + b.groupPages by omega,
    Nat.add_div_right _ pos]
  have first : start / b.groupPages ≤ (start + count) / b.groupPages :=
    Nat.div_le_div_right (by omega)
  have middle : (start + count) / b.groupPages ≤
      (start + count + b.groupPages - 1) / b.groupPages :=
    Nat.div_le_div_right (by omega)
  have last : (start + count + b.groupPages - 1) / b.groupPages ≤
      (start + count) / b.groupPages + 1 := by
    rw [← Nat.add_div_right _ pos]
    exact Nat.div_le_div_right (by omega)
  omega

/-- Refreshing one more page is refreshing it afterwards. -/
theorem Block.refreshRange_succ (b : Block) {start count : Nat} (h : 0 < count) :
    b.refreshRange start (count + 1) =
      (b.refreshRange start count).refreshRange (start + count) 1 := by
  refine eq_of (by simp) (fun j => ?_) (by simp) fun g => ?_
  · simp only [refreshRange_page, refreshRange_toControl]
    cases b.swappedIn
    · simp
    · simp only [true_and]
      split_ifs <;> first | rfl | omega
  · simp only [refreshRange_os, refreshRange_toControl, refreshRange_groupNativeProt,
      Control.touches_succ h]
    split_ifs <;> first | rfl | tauto

/-- The page refreshed, if the block is mapped at all. -/
def Page.refreshed (swappedIn : Bool) (p : Page) : Page := if swappedIn then p.noted else p

theorem Block.refreshRange_page_refreshed (b : Block) (start count j : Nat) :
    (b.refreshRange start count).page j =
      if start ≤ j ∧ j < start + count then (b.page j).refreshed b.swappedIn else b.page j := by
  rw [refreshRange_page]
  unfold Page.refreshed
  cases b.swappedIn <;> simp

theorem Page.refreshed_refreshed (swappedIn : Bool) (p : Page) :
    (p.refreshed swappedIn).refreshed swappedIn = p.refreshed swappedIn := by
  cases swappedIn
  · rfl
  · exact p.noted_noted

namespace Pending

/-- A page of the open run. -/
def covers (s : Pending) (i : Nat) : Prop :=
  ∃ run, s.run = some run ∧ run.start ≤ i ∧ i < run.start + (run.last - run.start + 1)

/-- The open run, if there is one, is a run. -/
def Ordered (s : Pending) : Prop := ∀ run, s.run = some run → run.start ≤ run.last

theorem ordered_none (b : Block) : Ordered ⟨b, none⟩ := by
  intro run is
  cases is

/-- The open run, if there is one, is a run and ends before `i`. -/
def Below (s : Pending) (i : Nat) : Prop :=
  ∀ run, s.run = some run → run.start ≤ run.last ∧ run.last < i

theorem Below.ordered (h : s.Below i) : s.Ordered :=
  fun run is => (h run is).1

theorem Below.not_covers (h : s.Below i) : ¬ s.covers i := by
  rintro ⟨run, is, -, lt⟩
  have := h run is
  omega

theorem Below.mono (h : s.Below i) (le : i ≤ j) : s.Below j :=
  fun run is => ⟨(h run is).1, Nat.lt_of_lt_of_le (h run is).2 le⟩

theorem note_run (ordered : s.Ordered) (is : (s.note i).run = some run) :
    run.start ≤ i ∧ run.last = i := by
  unfold note at is
  split at is
  · cases is
    exact ⟨Nat.le_refl i, rfl⟩
  next old was =>
    split at is
    next extends_ =>
      cases is
      have := ordered old was
      exact ⟨by dsimp only; omega, rfl⟩
    · cases is
      exact ⟨Nat.le_refl i, rfl⟩

theorem Ordered.note (h : s.Ordered) (i : Nat) : (s.note i).Ordered := by
  intro run is
  obtain ⟨start, last⟩ := note_run h is
  rw [last]
  exact start

theorem Below.note (h : s.Below i) : (s.note i).Below (i + 1) := by
  intro run is
  obtain ⟨start, last⟩ := note_run h.ordered is
  rw [last]
  exact ⟨start, Nat.lt_succ_self i⟩

theorem close_none (h : s.run = none) : s.close = s.block := by
  simp [close, h]

theorem close_some (h : s.run = some run) :
    s.close = s.block.refreshRange run.start (run.last - run.start + 1) := by
  simp [close, h]

/-- Noting a page and closing the run is closing it and refreshing the page. -/
theorem note_close (h : s.Ordered) (i : Nat) : (s.note i).close = s.close.refreshRange i 1 := by
  unfold note
  split
  next none => simp [close, none]
  next run is =>
    split
    next next_ =>
      subst next_
      have le := h run is
      have extended := @Block.refreshRange_succ s.block run.start (run.last - run.start + 1)
        (by omega)
      have here : run.start + (run.last - run.start + 1) = run.last + 1 := by omega
      have longer : run.last + 1 - run.start + 1 = run.last - run.start + 1 + 1 := by omega
      rw [here] at extended
      simp only [close, is, longer]
      exact extended
    · simp [close]

@[simp] theorem close_toControl (s : Pending) : s.close.toControl = s.block.toControl := by
  unfold close
  split <;> simp

@[simp] theorem close_shared (s : Pending) : s.close.shared = s.block.shared := by
  unfold close
  split <;> simp

@[simp] theorem note_toControl (s : Pending) (i : Nat) :
    (s.note i).block.toControl = s.block.toControl := by
  unfold note
  split
  · rfl
  · split <;> simp

/-- The page as the open run will leave it. -/
theorem close_page_of_not_covers (h : ¬ s.covers j) : s.close.page j = s.block.page j := by
  unfold close
  split
  · rfl
  next run is =>
    rw [Block.refreshRange_page, if_neg]
    rintro ⟨-, range⟩
    exact h ⟨run, is, range⟩

theorem close_page (s : Pending) (j : Nat) : s.close.page j = s.block.page j ∨
      s.close.page j = (s.block.page j).refreshed s.block.swappedIn := by
  unfold close
  split
  · exact .inl rfl
  next run is =>
    rw [Block.refreshRange_page_refreshed]
    split_ifs
    · exact .inr rfl
    · exact .inl rfl

/-- A page operation inside a loop that collects runs. -/
def onPage (s : Pending) (i : Nat) (f : Track → Track) : Pending :=
  { s with block := s.block.onPage i f }

theorem onPage_close_page (h : ¬ s.covers i) (f : Track → Track) (j : Nat) :
    (s.onPage i f).close.page j = (s.close.onPage i f).page j := by
  have here := close_page_of_not_covers h
  by_cases hj : j = i
  · subst hj
    rw [close_page_of_not_covers (s := s.onPage j f) h]
    simp [onPage, here]
  · rw [Block.onPage_page_ne _ _ hj]
    cases hr : s.run with
    | none =>
      rw [close_none hr, close_none (s := s.onPage i f) hr]
      exact Block.onPage_page_ne _ _ hj
    | some run =>
      rw [close_some hr, close_some (s := s.onPage i f) hr]
      simp [onPage, Block.refreshRange_page, hj]

/-- A page changed and noted, seen with the run closed. -/
theorem onPage_note_page (below : s.Below i) (f : Track → Track) (j : Nat) :
    ((s.onPage i f).note i).close.page j =
      if j = i then (f ⟨s.close.page i, s.block.shared⟩).page.refreshed s.block.swappedIn
      else s.close.page j := by
  rw [note_close (s := s.onPage i f) below.ordered, Block.refreshRange_page_refreshed,
    onPage_close_page below.not_covers, Block.onPage_page]
  by_cases h : j = i
  · subst h
    simp [onPage]
  · rw [if_neg (by omega), if_neg h, if_neg h]

/-- Pages noted one after the other, seen with the run closed. -/
theorem notes_page (ordered : s.Ordered) (list : List Nat) (j : Nat) :
    (list.foldl note s).close.page j =
      if j ∈ list then (s.close.page j).refreshed s.block.swappedIn else s.close.page j := by
  induction list generalizing s with
  | nil => simp
  | cons i rest ih =>
    rw [List.foldl_cons, ih (ordered.note i), note_close ordered,
      Block.refreshRange_page_refreshed, note_toControl, close_toControl]
    by_cases here : j = i
    · subst here
      simp [Page.refreshed_refreshed]
    · have out : ¬ (i ≤ j ∧ j < i + 1) := by omega
      simp only [List.mem_cons, here, false_or, out, if_false]

/-- What a body of a loop over ascending pages does, seen with the run closed: only its
own page changes, by `R`. -/
structure Turn (R : Page → Page → Prop) (i : Nat) (s t : Pending) : Prop where
  below : t.Below (i + 1)
  swapped : t.block.swappedIn = s.block.swappedIn
  apart : ∀ j, j ≠ i → t.close.page j = s.close.page j
  here : R (s.close.page i) (t.close.page i)

/-- A loop over ascending entries that collects runs, seen with the last run closed. -/
theorem loop_page {γ : Type*} (idx : γ → Nat) {f : Pending → γ → Pending}
    {R : γ → Page → Page → Prop} (turn : ∀ s e, s.Below (idx e) → s.block.swappedIn = b.swappedIn →
      Turn (R e) (idx e) s (f s e)) {entries : List γ}
    (ascending : entries.Pairwise fun d e => idx d < idx e) :
    (∀ e ∈ entries, R e (b.page (idx e)) ((entries.foldl f ⟨b, none⟩).close.page (idx e))) ∧
      ∀ j, (∀ e ∈ entries, idx e ≠ j) →
        (entries.foldl f ⟨b, none⟩).close.page j = b.page j := by
  let C (k : Nat) (s : Pending) : Prop := s.Below k ∧ s.block.swappedIn = b.swappedIn
  have apart : ∀ s e j, C (idx e) s → j ≠ idx e → (f s e).close.page j = s.close.page j :=
    fun s e j here other => (turn s e here.1 here.2).apart j other
  have advance : ∀ s e, C (idx e) s → C (idx e + 1) (f s e) :=
    fun s e here =>
      ⟨(turn s e here.1 here.2).below, (turn s e here.1 here.2).swapped.trans here.2⟩
  have later : ∀ s k l, k ≤ l → C k s → C l s :=
    fun s k l le here => ⟨here.1.mono le, here.2⟩
  have step : ∀ s e, C (idx e) s → R e (s.close.page (idx e)) ((f s e).close.page (idx e)) :=
    fun s e here => (turn s e here.1 here.2).here
  have initial : C 0 ⟨b, none⟩ := ⟨fun run is => (by cases is), rfl⟩
  have low : ∀ e ∈ entries, 0 ≤ idx e := fun e _ => Nat.zero_le _
  constructor
  · intro e member
    exact foldl_inside
      (fun s j => s.close.page j) apart advance later step ascending low initial member
  · intro j other
    exact foldl_outside (fun s j => s.close.page j) apart advance later ascending low initial other

/-- A page changed and noted is such a turn. -/
theorem note_turn (below : s.Below i) (here : R (s.close.page i)
      ((f ⟨s.close.page i, s.block.shared⟩).page.refreshed s.block.swappedIn)) :
    Turn R i s ((s.onPage i f).note i) where
  below := Below.note (s := s.onPage i f) below
  swapped := by simp [onPage]
  apart j other := by rw [onPage_note_page below, if_neg other]
  here := by
    rw [onPage_note_page below, if_pos rfl]
    exact here

/-- So is a page changed and not noted. -/
theorem onPage_turn (below : s.Below i)
    (here : R (s.close.page i) (f ⟨s.close.page i, s.block.shared⟩).page) :
    Turn R i s (s.onPage i f) where
  below := Below.mono (s := s.onPage i f) below (Nat.le_succ i)
  swapped := rfl
  apart j other := by
    rw [onPage_close_page below.not_covers, Block.onPage_page_ne _ _ other]
  here := by
    rw [onPage_close_page below.not_covers, Block.onPage_page_self, close_shared]
    exact here

/-- What a refresh keeps of a page, closing the run keeps of all. -/
theorem close_keeps (refreshed : ∀ j p, P j p → P j (p.refreshed s.block.swappedIn))
    (h : ∀ j, P j (s.block.page j)) : ∀ j, P j (s.close.page j) := by
  intro j
  rcases s.close_page j with same | fresh
  · rw [same]
    exact h j
  · rw [fresh]
    exact refreshed j _ (h j)

theorem note_keeps (refreshed : ∀ j p, P j p → P j (p.refreshed s.block.swappedIn))
    (h : ∀ j, P j (s.block.page j)) (i : Nat) : ∀ j, P j ((s.note i).block.page j) := by
  unfold note
  split
  · exact h
  · split
    · exact h
    · exact close_keeps refreshed h

end Pending

/-! ## Protections kept in step

An operation is *in step* when every host page either was given the protection of
its group or kept both its protection and, up to `L`, its pages.  Before the block
is swapped in nothing is mapped, and pages may change as they like. -/

structure Block.InStep (L : Page → Page → Prop) (b c : Block) : Prop where
  addr : c.addr = b.addr
  shift : c.groupShift = b.groupShift
  swapped : c.swappedIn = b.swappedIn
  outside : ∀ i, b.npages ≤ i → c.page i = b.page i
  os : ∀ g, b.swappedIn = true ∧ c.os g = c.groupNativeProt g ∨
    c.os g = b.os g ∧ (b.swappedIn = true →
      ∀ k, k < b.npages → b.hostPage k = g → L (b.page k) (c.page k))

namespace Page

/-- What was to be writable still is, and what was to be seen is what is to be. -/
def Wider (p q : Page) : Prop :=
  (p.nativeProt.writable = true → q.nativeProt.writable = true) ∧
    (q.nativeProt = .none ↔ p.nativeProt = .none)

/-- What was to be writable still is, what is tracked was tracked, and a page no plan held
is not held by one. -/
def Looser (p q : Page) : Prop :=
  p.Wider q ∧ (statusTracked q.status = true → statusTracked p.status = true) ∧
    (p.planHold = .free → q.planHold = .free)

theorem Wider.refl (p : Page) : p.Wider p := ⟨id, .rfl⟩

theorem Wider.trans {r : Page} (h : p.Wider q) (k : q.Wider r) : p.Wider r :=
  ⟨fun writable => k.1 (h.1 writable), k.2.trans h.2⟩

/-- Under one status a page is seen all the same. -/
theorem Wider.of_status (status : q.status = p.status)
    (writable : p.nativeProt.writable = true → q.nativeProt.writable = true) : p.Wider q :=
  ⟨writable, by rw [nativeProt_eq_none, nativeProt_eq_none, status]⟩

theorem Looser.refl (p : Page) : p.Looser p := ⟨.refl p, id, id⟩

end Page

/-- Nothing is mapped before the block is swapped in. -/
def Block.Unmapped (b : Block) : Prop := b.swappedIn = false → ∀ g, b.os g = .none

/-- No host page mapped writable has a tracked page that is to be held. -/
def Block.Tight (b : Block) : Prop :=
  ∀ k, k < b.npages → (b.os (b.hostPage k)).writable = true →
    statusTracked (b.page k).status = true → (b.page k).nativeProt.writable = true

/-- On a 4 KiB host: a page of the block is mapped exactly when the guest is to see it. -/
def Block.Shown (b : Block) : Prop :=
  b.swappedIn = true → ∀ i, i < b.npages → (b.os i = .none ↔ (b.page i).nativeProt = .none)

/-- On a 4 KiB host: no page is mapped writable that is not to be. -/
def Block.Exact (b : Block) : Prop :=
  ∀ i, (b.os i).writable = true → (b.page i).nativeProt.writable = true

theorem Control.npages_congr {b c : Control} (addr : c.addr = b.addr) : c.npages = b.npages := by
  rw [npages, npages, addr]

theorem Control.hostPage_congr {b c : Control} (shift : c.groupShift = b.groupShift) (k : Nat) :
    c.hostPage k = b.hostPage k := by
  rw [hostPage, hostPage, groupPages, groupPages, shift]

theorem Control.hostPage_one {b : Control} (single : b.groupShift = 0) (k : Nat) :
    b.hostPage k = k := by
  simp [hostPage, groupPages, single]

namespace Block

theorem Exact.tight (exact_ : b.Exact) (single : b.groupShift = 0) : b.Tight := by
  intro k _ writable _
  rw [Control.hostPage_one single] at writable
  exact exact_ k writable

theorem InStep.unmapped (h : b.InStep L c) (unmapped : b.Unmapped) : c.Unmapped := by
  intro out g
  rw [h.swapped] at out
  rcases h.os g with ⟨mapped, -⟩ | ⟨kept, -⟩
  · rw [out] at mapped
    cases mapped
  · rw [kept]
    exact unmapped out g

theorem Unmapped.mapped (unmapped : b.Unmapped) (writable : (b.os g).writable = true) :
    b.swappedIn = true := by
  cases out : b.swappedIn with
  | true => rfl
  | false =>
    rw [unmapped out g] at writable
    exact absurd writable (by decide)

theorem InStep.tight (h : b.InStep Page.Looser c) (unmapped : b.Unmapped) (tight : b.Tight) :
    c.Tight := by
  intro k hk writable tracked
  rw [Control.npages_congr h.addr] at hk
  rcases h.os (c.hostPage k) with ⟨-, fresh⟩ | ⟨kept, looser⟩
  · rw [fresh] at writable
    exact groupNativeProt_writable (by rw [Control.npages_congr h.addr]; exact hk) tracked writable
  · rw [kept, Control.hostPage_congr h.shift] at writable
    have loose := looser (unmapped.mapped writable) k hk (Control.hostPage_congr h.shift k).symm
    exact loose.1.1 (tight k hk writable (loose.2.1 tracked))

theorem InStep.exact (h : b.InStep Page.Wider c) (unmapped : b.Unmapped)
    (single : b.groupShift = 0) (exact_ : b.Exact) : c.Exact := by
  intro i writable
  rcases h.os i with ⟨-, fresh⟩ | ⟨kept, wider⟩
  · rw [fresh, groupNativeProt_one (by rw [h.shift]; exact single)] at writable
    exact writable
  · rw [kept] at writable
    have wanted := exact_ i writable
    by_cases hi : i < b.npages
    · exact (wider (unmapped.mapped writable) i hi (Control.hostPage_one single i)).1 wanted
    · rw [h.outside i (by omega)]
      exact wanted

theorem InStep.shown (h : b.InStep Page.Wider c) (single : b.groupShift = 0) (shown : b.Shown) :
    c.Shown := by
  intro swapped i hi
  rw [h.swapped] at swapped
  rw [Control.npages_congr h.addr] at hi
  rcases h.os i with ⟨-, fresh⟩ | ⟨kept, wider⟩
  · rw [fresh, groupNativeProt_one (h.shift.trans single)]
  · rw [kept, shown swapped i hi]
    exact (wider swapped i hi (Control.hostPage_one single i)).2.symm

/-- Several operations in step, one after the other. -/
abbrev InSteps (L : Page → Page → Prop) : Block → Block → Prop :=
  Relation.ReflTransGen (InStep L)

theorem InStep.mono {M : Page → Page → Prop} (weaker : ∀ p q, L p q → M p q)
    (h : b.InStep L c) : b.InStep M c := by
  refine ⟨h.addr, h.shift, h.swapped, h.outside, fun g => ?_⟩
  rcases h.os g with fresh | ⟨kept, pages⟩
  · exact .inl fresh
  · exact .inr ⟨kept, fun swapped k hk host => weaker _ _ (pages swapped k hk host)⟩

end Block

namespace Block.InSteps

/-- On a 4 KiB host what only loosens pages widens them. -/
theorem wider (h : InSteps Page.Looser b c) : InSteps Page.Wider b c := by
  induction h with
  | refl => exact .refl
  | tail _ last ih => exact ih.tail (last.mono fun _ _ looser => looser.1)

theorem rest (h : InSteps L b c) :
    c.addr = b.addr ∧ c.groupShift = b.groupShift ∧ c.swappedIn = b.swappedIn ∧
      ∀ i, b.npages ≤ i → c.page i = b.page i := by
  induction h with
  | refl => exact ⟨rfl, rfl, rfl, fun _ _ => rfl⟩
  | tail _ last ih =>
    obtain ⟨addr, shift, swapped, outside⟩ := ih
    refine ⟨last.addr.trans addr, last.shift.trans shift, last.swapped.trans swapped, ?_⟩
    intro i hi
    rw [last.outside i (by rw [Control.npages_congr addr]; exact hi), outside i hi]

theorem unmapped (h : InSteps L b c) (unmapped : b.Unmapped) : c.Unmapped := by
  induction h with
  | refl => exact unmapped
  | tail _ last ih => exact last.unmapped ih

theorem tight (h : InSteps Page.Looser b c) (unmapped : b.Unmapped) (tight : b.Tight) :
    c.Tight := by
  induction h with
  | refl => exact tight
  | tail steps last ih => exact last.tight (InSteps.unmapped steps unmapped) ih

theorem exact (h : InSteps Page.Wider b c) (unmapped : b.Unmapped)
    (single : b.groupShift = 0) (exact_ : b.Exact) : c.Exact := by
  induction h with
  | refl => exact exact_
  | tail steps last ih =>
    refine last.exact (InSteps.unmapped steps unmapped) ?_ ih
    rw [(InSteps.rest steps).2.1]
    exact single

theorem shown (h : InSteps Page.Wider b c) (single : b.groupShift = 0)
    (shown : b.Shown) : c.Shown := by
  induction h with
  | refl => exact shown
  | tail steps last ih =>
    refine last.shown ?_ ih
    rw [(rest steps).2.1]
    exact single

end Block.InSteps

section Reflexive

variable {L : Page → Page → Prop} (same : ∀ p, L p p)

include same

theorem Block.InStep.refl (b : Block) : b.InStep L b :=
  ⟨rfl, rfl, rfl, fun _ _ => rfl, fun _ => .inr ⟨rfl, fun _ _ _ _ => same _⟩⟩

/-- An operation that changes pages of a range and refreshes the range is in
step. -/
theorem Block.refreshRange_inStep {b c : Block} {start count : Nat} (os : c.os = b.os)
    (control : c.toControl = b.toControl) (bound : start + count ≤ b.npages)
    (outside : ∀ j, ¬ (start ≤ j ∧ j < start + count) → c.page j = b.page j) :
    b.InStep L (c.refreshRange start count) := by
  refine ⟨by simp [control], by simp [control], by simp [control], fun i hi => ?_, fun g => ?_⟩
  · rw [refreshRange_page, if_neg (by omega), outside i (by omega)]
  rw [refreshRange_groupNativeProt, refreshRange_os, control]
  split_ifs with range
  · exact .inl ⟨range.1, rfl⟩
  · refine .inr ⟨by rw [os], fun swapped k hk host => ?_⟩
    have out : ¬ (start ≤ k ∧ k < start + count) := by
      rintro ⟨lo, hi⟩
      refine range ⟨swapped, ?_⟩
      rw [← host]
      exact Control.touches_of_mem lo hi
    rw [refreshRange_page, if_neg (fun h => out h.2), outside k out]
    exact same _

omit same in
theorem Pending.onPage_close_page_ne {s : Pending} {i j : Nat} (f : Track → Track) (h : j ≠ i) :
    (s.onPage i f).close.page j = s.close.page j := by
  cases hr : s.run with
  | none =>
    rw [close_none hr, close_none (s := s.onPage i f) hr]
    exact Block.onPage_page_ne _ _ h
  | some run =>
    rw [close_some hr, close_some (s := s.onPage i f) hr]
    simp [onPage, Block.refreshRange_page, h]

omit same in
/-- The host pages the open run touches will have the protection of their group
as it is when the run is closed; the others keep theirs. -/
theorem Pending.onPage_close_os (s : Pending) (i : Nat) (f : Track → Track) (g : Nat) :
    s.block.swappedIn = true ∧ (s.onPage i f).close.os g = (s.onPage i f).close.groupNativeProt g ∨
      (s.onPage i f).close.os g = s.close.os g ∧ (s.block.swappedIn = true → s.covers i →
        s.block.hostPage i ≠ g) := by
  cases hr : s.run with
  | none =>
    rw [close_none hr, close_none (s := s.onPage i f) hr]
    refine .inr ⟨rfl, ?_⟩
    rintro - ⟨run, is, -⟩
    rw [hr] at is
    cases is
  | some run =>
    rw [close_some hr, close_some (s := s.onPage i f) hr, Block.refreshRange_groupNativeProt]
    by_cases range : s.block.swappedIn = true ∧
        s.block.touches run.start (run.last - run.start + 1) g
    · exact .inl ⟨range.1, Block.refreshRange_os_touched (b := (s.onPage i f).block) range⟩
    · rw [Block.refreshRange_os_untouched range,
        Block.refreshRange_os_untouched (b := (s.onPage i f).block) range]
      refine .inr ⟨rfl, ?_⟩
      rintro swapped ⟨run', is, lo, hi⟩ rfl
      rw [hr] at is
      cases is
      exact range ⟨swapped, Control.touches_of_mem lo hi⟩

/-- Changing a page that is not noted is in step if the page changes by `L`. -/
theorem Pending.onPage_inStep {s : Pending} {i : Nat} {f : Track → Track}
    (inside : i < s.block.npages)
    (change : L (s.block.page i) (f ⟨s.block.page i, s.block.shared⟩).page) :
    s.close.InStep L (s.onPage i f).close := by
  refine ⟨by simp [onPage], by simp [onPage], by simp [onPage], fun j hj => ?_, fun g => ?_⟩
  · refine onPage_close_page_ne f ?_
    rintro rfl
    rw [close_toControl] at hj
    omega
  rw [close_toControl]
  rcases s.onPage_close_os i f g with fresh | ⟨kept, apart⟩
  · exact .inl fresh
  · refine .inr ⟨kept, fun swapped k _ host => ?_⟩
    by_cases h : k = i
    · subst h
      have free : ¬ s.covers k := fun covered => apart swapped covered host
      rw [onPage_close_page free, Block.onPage_page_self, close_page_of_not_covers free,
        close_shared]
      exact change
    · rw [onPage_close_page_ne f h]
      exact same _

/-- Changing a page and noting it is in step, whatever it does to the page. -/
theorem Pending.note_inStep {s : Pending} {i : Nat} {f : Track → Track} (ordered : s.Ordered)
    (inside : i < s.block.npages) : s.close.InStep L ((s.onPage i f).note i).close := by
  rw [note_close (s := s.onPage i f) ordered]
  have control : (s.onPage i f).close.toControl = s.close.toControl := by simp [onPage]
  have elsewhere : ∀ j, j ≠ i →
      ((s.onPage i f).close.refreshRange i 1).page j = s.close.page j := by
    intro j other
    rw [Block.refreshRange_page, if_neg (by omega), onPage_close_page_ne f other]
  refine ⟨by simp [onPage], by simp [onPage], by simp [onPage], fun j hj => elsewhere j ?_,
    fun g => ?_⟩
  · rintro rfl
    rw [close_toControl] at hj
    omega
  rw [Block.refreshRange_groupNativeProt]
  by_cases range : (s.onPage i f).close.swappedIn = true ∧ (s.onPage i f).close.touches i 1 g
  · refine .inl ⟨?_, Block.refreshRange_os_touched range⟩
    rw [← control]
    exact range.1
  · rw [Block.refreshRange_os_untouched range, close_toControl]
    rcases s.onPage_close_os i f g with fresh | ⟨kept, -⟩
    · exact .inl fresh
    · refine .inr ⟨kept, fun swapped k _ host => ?_⟩
      have other : k ≠ i := by
        rintro rfl
        refine range ⟨?_, ?_⟩
        · rw [control, close_toControl]
          exact swapped
        · rw [← host, ← close_toControl s, ← control]
          exact Control.touches_of_mem (Nat.le_refl k) (Nat.lt_succ_self k)
      rw [elsewhere k other]
      exact same _

end Reflexive

end MiniBox
