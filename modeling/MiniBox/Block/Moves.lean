import MiniBox.Block.Baseline

/-!
# Host writes and mappings that move

`copy_from_external` and a `mremap` that relocates write pages through the mirror.  Both
are a sequence of `HostStep`s: the steps of the other memory calls, and single pages
overwritten.  An overwritten page is dirty and not hot; its hold and what the OS has for
it stay as they were, which only loosens it.

A move also gives the destination the invisibility of its source.  `HostStep` takes what
is known of an overwritten page and its new flag as a parameter, so that each use can say
what it needs.
-/

namespace MiniBox

open Lib

/-! ## One page overwritten -/

/-- A page the host wrote, with the invisibility it has from now on. -/
def Page.overwritten (planActive invisible : Bool) (bytes : PageBytes) (p : Page) : Page :=
  (overwritePage planActive 0 (fun _ => bytes) ⟨{ p with invisible }, {}⟩).page

theorem overwritePage_page (planActive : Bool) (i : Nat) (bytes : PageBytes → PageBytes)
    (x : Track) :
    (overwritePage planActive i bytes x).page =
      x.page.overwritten planActive x.page.invisible (bytes x.page.mem) := by
  simp [overwritePage, Page.overwritten]

theorem overwritePage_faithful (planActive : Bool) (i j : Nat) (bytes : PageBytes → PageBytes) :
    Faithful i (overwritePage planActive j bytes) := by
  have written : Faithful i fun x : Track =>
      { x with page := { x.page with mem := bytes x.page.mem } } :=
    fun x => setMem_faithful i (bytes x.page.mem) x
  exact (((planCapture_faithful planActive i j).comp (setDirty_faithful i true)).comp
    (pageCool_faithful i)).comp written

theorem setInvisible_faithful (i : Nat) (invisible : Bool) :
    Faithful i fun x => { x with page := { x.page with invisible } } :=
  faithful_of_tally (fun _ _ => rfl) fun _ => rfl

theorem Page.Settled.overwritten {swappedIn : Bool} {p : Page} (h : p.Settled swappedIn)
    (planActive invisible : Bool) (bytes : PageBytes) :
    (p.overwritten planActive invisible bytes).Settled swappedIn := by
  obtain ⟨dirty, held, unheld, apart, unmapped⟩ := h
  constructor <;>
    simp only [Page.overwritten, overwritePage, pageCool_page, setDirty_page, planCapture_page] <;>
    grind

/-- Overwriting a page only loosens it. -/
theorem Page.Settled.overwritten_looser {swappedIn : Bool} {p : Page} (h : p.Settled swappedIn)
    (planActive invisible : Bool) (bytes : PageBytes) :
    p.Looser (p.overwritten planActive invisible bytes) := by
  have held := h.hotHeld
  have status : (p.overwritten planActive invisible bytes).status = p.status := by
    simp [Page.overwritten, overwritePage]
  refine ⟨.of_status status fun writable => ?_, ?_, fun free => ?_⟩
  · rw [Page.nativeProt_writable] at writable ⊢
    simp only [Page.opens, Page.overwritten, overwritePage, pageCool_page, setDirty_page,
      planCapture_page] at writable ⊢
    grind
  · rw [status]
    exact id
  · simp [Page.overwritten, overwritePage, free]

/-! ## Steps of the host -/

/-- A step of a memory call, or page `i` overwritten and given a flag that `Q` allows. -/
inductive HostStep (Q : Nat → Page → Bool → Prop) (b : Block) : Block → Prop where
  | mem {c : Block} : MemStep b c → HostStep Q b c
  | overwrite {i : Nat} (invisible : Bool) (bytes : PageBytes → PageBytes) : i < b.npages →
      Q i (b.page i) invisible →
      HostStep Q b (b.onPage i fun x =>
        overwritePage b.planActive i bytes { x with page := { x.page with invisible } })

abbrev HostSteps (Q : Nat → Page → Bool → Prop) : Block → Block → Prop :=
  Relation.ReflTransGen (HostStep Q)

section Steps

variable {Q : Nat → Page → Bool → Prop} {b c : Block}

theorem MemSteps.host (h : MemSteps b c) : HostSteps Q b c := by
  induction h with
  | refl => exact .refl
  | tail _ last ih => exact ih.tail (.mem last)

theorem HostSteps.mono {Q' : Nat → Page → Bool → Prop}
    (weaker : ∀ i p invisible, Q i p invisible → Q' i p invisible) (h : HostSteps Q b c) :
    HostSteps Q' b c := by
  induction h with
  | refl => exact .refl
  | tail _ last ih =>
    cases last with
    | mem step => exact ih.tail (.mem step)
    | overwrite invisible bytes inside allowed =>
      exact ih.tail (.overwrite invisible bytes inside (weaker _ _ _ allowed))

theorem HostStep.toControl (h : HostStep Q b c) : c.toControl = b.toControl := by
  cases h with
  | mem step => exact step.toControl
  | overwrite invisible bytes _ _ => rfl

theorem HostSteps.toControl (h : HostSteps Q b c) : c.toControl = b.toControl := by
  induction h with
  | refl => rfl
  | tail _ last ih => rw [last.toControl, ih]

theorem HostSteps.recorded (h : HostSteps Q b c) (recorded : b.Recorded) : c.Recorded := by
  induction h with
  | refl => exact recorded
  | tail _ last ih =>
    cases last with
    | mem step => exact MemSteps.recorded (.single step) ih
    | overwrite invisible bytes inside _ =>
      exact ih.onPage inside
        ((setInvisible_faithful _ invisible).comp (overwritePage_faithful _ _ _ bytes))

/-- What one step of the host does to a page. -/
inductive Page.HostChange (c : Control) (Q : Page → Bool → Prop) (p : Page) : Page → Prop where
  | called {q : Page} : p.Called c q → HostChange c Q p q
  | overwrite (invisible : Bool) (bytes : PageBytes) : Q p invisible →
      HostChange c Q p (p.overwritten c.planActive invisible bytes)

theorem HostStep.page (h : HostStep Q b c) (j : Nat) :
    c.page j = b.page j ∨ (b.page j).HostChange b.toControl (Q j) (c.page j) := by
  cases h with
  | mem step =>
    rcases step.page j with same | ⟨-, called⟩
    · exact .inl same
    · exact .inr (.called called)
  | @overwrite i invisible bytes inside allowed =>
    rw [Block.onPage_page]
    split_ifs with here
    · subst here
      rw [overwritePage_page]
      exact .inr (.overwrite invisible _ allowed)
    · exact .inl rfl

theorem HostSteps.keeps (h : HostSteps Q b c) {P : Nat → Page → Prop}
    (step : ∀ i p q, p.HostChange b.toControl (Q i) q → P i p → P i q)
    (initial : ∀ i, P i (b.page i)) (i : Nat) : P i (c.page i) := by
  induction h with
  | refl => exact initial i
  | tail steps last ih =>
    rcases last.page i with same | change
    · rw [same]
      exact ih
    · rw [toControl steps] at change
      exact step i _ _ change ih

theorem Page.Settled.hostChange {c : Control} {Q : Page → Bool → Prop} {p q : Page}
    (change : p.HostChange c Q q) (h : p.Settled c.swappedIn) : q.Settled c.swappedIn := by
  cases change with
  | called called => exact h.change (.called called)
  | overwrite invisible bytes _ => exact h.overwritten _ _ _

theorem HostSteps.settled (h : HostSteps Q b c) (settled : ∀ i, (b.page i).Settled b.swappedIn)
    (i : Nat) : (c.page i).Settled b.swappedIn :=
  h.keeps (P := fun _ p => p.Settled b.swappedIn) (fun _ _ _ change => .hostChange change) settled i

theorem HostSteps.inSteps (h : HostSteps Q b c) (settled : ∀ i, (b.page i).Settled b.swappedIn) :
    Block.InSteps Page.Looser b c := by
  induction h with
  | refl => exact .refl
  | @tail d _ steps last ih =>
    refine ih.tail ?_
    have between := HostSteps.settled steps settled
    cases last with
    | mem step => exact step.inStep Page.Looser.refl
    | @overwrite i invisible bytes inside _ =>
      refine Pending.onPage_inStep (s := ⟨d, none⟩) (f := fun x =>
        overwritePage d.planActive i bytes { x with page := { x.page with invisible } })
        Page.Looser.refl inside ?_
      rw [overwritePage_page]
      exact (between i).overwritten_looser _ _ _

end Steps

/-! ## Free pages found -/

variable {b : Block} {lo hi i : Nat} {r : Relocation} {addr : Range}

/-- How many pages of a block of `n` pages are in group `g`. -/
theorem groupSize (n g : Nat) :
    countBelow n (fun i => i >>> groupShiftFree == g) =
      min (n - g <<< groupShiftFree) freeGroup := by
  induction n with
  | zero => simp [countBelow]
  | succ n ih =>
    have inside : n >>> groupShiftFree = g ↔ g * 512 ≤ n ∧ n < g * 512 + 512 := by
      rw [Nat.shiftRight_eq_div_pow, Nat.div_eq_iff (by decide)]
      simp only [groupShiftFree]
      omega
    have start : g <<< groupShiftFree = g * 512 := Nat.shiftLeft_eq g 9
    have size : freeGroup = 512 := rfl
    rw [countBelow_succ, ih, start, size]
    by_cases here : n >>> groupShiftFree = g
    · rw [beq_iff_eq.mpr here]
      have := inside.mp here
      simp only [Bool.toNat_true]
      omega
    · rw [beq_eq_false_iff_ne.mpr here]
      rw [inside] at here
      simp only [Bool.toNat_false]
      omega

theorem Block.Recorded.mapFree (h : b.Recorded) (i : Nat) :
    b.mapFree i = true ↔ (b.page i).status = stFree := by
  rw [Block.mapFree, (h.consistent i).status, beq_iff_eq]

/-- A group counted all free is all free. -/
theorem Block.Recorded.groupAllFree (h : b.Recorded) {first : Nat}
    (counted : b.groupAllFree first lo hi = true) (bound : hi ≤ b.npages) (low : first ≤ i)
    (high : i < first + freeGroup) : (b.page i).status = stFree := by
  have size : freeGroup = 512 := rfl
  simp only [Block.groupAllFree, groupCounts, Bool.and_eq_true, decide_eq_true_eq, beq_iff_eq,
    h.free] at counted
  obtain ⟨⟨⟨aligned, -⟩, fits⟩, count⟩ := counted
  rw [size] at aligned high fits
  have group : i >>> groupShiftFree = first >>> groupShiftFree := by
    rw [Nat.shiftRight_eq_div_pow, Nat.shiftRight_eq_div_pow]
    simp only [groupShiftFree]
    omega
  by_contra taken
  have fewer := countBelow_lt (n := b.npages) (i := i)
    (f := fun j => j >>> groupShiftFree == first >>> groupShiftFree && (b.page j).status == stFree)
    (g := fun j => j >>> groupShiftFree == first >>> groupShiftFree)
    (fun j both => (Bool.and_eq_true _ _ ▸ both).1) (by omega) (by simp [group])
    (by simp [taken])
  rw [count, groupSize] at fewer
  omega

/-- Every page up to the end of a free run is free. -/
theorem Block.Recorded.freeRunEnd (h : b.Recorded) (bound : hi ≤ b.npages) :
    ∀ {fuel j : Nat}, j ≤ i → i < b.freeRunEnd lo hi fuel j →
      (b.page i).status = stFree
  | 0, j, low, high => by
    rw [Block.freeRunEnd] at high
    omega
  | fuel + 1, j, low, high => by
    rw [Block.freeRunEnd] at high
    split at high
    next free =>
      simp only [Bool.and_eq_true] at free
      split at high
      next group =>
        rcases Nat.lt_or_ge i (j + freeGroup) with within | past
        · exact h.groupAllFree group bound low within
        · exact h.freeRunEnd bound past high
      · rcases Nat.eq_or_lt_of_le low with rfl | past
        · exact (h.mapFree j).mp free.2
        · exact h.freeRunEnd bound past high
    · omega

/-- The search answers free pages only. -/
theorem Block.Recorded.findFreePages_free (h : b.Recorded)
    {arenaStart arenaCount npages start : Nat} (bound : arenaStart + arenaCount ≤ b.npages)
    (found : b.findFreePages arenaStart arenaCount npages = some start) (low : start ≤ i)
    (high : i < start + npages) : (b.page i).status = stFree := by
  unfold findFreePages at found
  split at found
  next big =>
    obtain ⟨first, runEnd, free, -, -, fits, rfl⟩ :=
      b.findHigh_of (Q := fun first runEnd => ∀ i, first ≤ i → i < runEnd →
          (b.page i).status = stFree)
        (fun _ _ _ _ => by omega)
        (fun first runEnd free large group i low high => by
          rcases Nat.lt_or_ge i first with within | past
          · exact h.groupAllFree group bound low (by omega)
          · exact free i past high)
        (fun first runEnd free above one i low high => by
          rcases Nat.lt_or_ge i first with within | past
          · obtain rfl : i = first - 1 := by omega
            exact (h.mapFree _).mp one
          · exact free i past high)
        (fun _ _ _ => by omega) (Nat.le_refl _) (Nat.le_refl _) found
    exact free i (by omega) (by omega)
  · refine b.findLow_of (P := fun start => start ≤ i → i < start + npages →
      (b.page i).status = stFree) ?_ (Nat.le_refl _) (by simp) found low high
    intro first _ _ _ fits low high
    have within : i < b.freeRunEnd arenaStart (arenaStart + arenaCount)
        (arenaStart + arenaCount - first) first := by omega
    exact h.freeRunEnd bound low within

/-! ## A mapping that moves -/

/-- `npages` pages from `newStart` on take the place of the `count` pages from `start`. -/
structure Relocation where
  start : Nat
  count : Nat
  newStart : Nat
  npages : Nat

/-- The page that page `k` of the new mapping is made after. -/
def Relocation.source (r : Relocation) (k : Nat) : Nat :=
  if k < r.count then r.start + k else r.start + r.count - 1

/-- From allocated pages of the block to free ones. -/
structure Relocation.Fits (r : Relocation) (b : Block) : Prop where
  nonempty : 0 < r.count
  old : r.start + r.count ≤ b.npages
  new : r.newStart + r.npages ≤ b.npages
  allocated : ∀ i, r.start ≤ i → i < r.start + r.count → (b.page i).status ≠ stFree
  free : ∀ i, r.newStart ≤ i → i < r.newStart + r.npages → (b.page i).status = stFree

theorem Relocation.Fits.source_mem (h : r.Fits b) (k : Nat) :
    r.start ≤ r.source k ∧ r.source k < r.start + r.count := by
  have := h.nonempty
  unfold source
  split_ifs <;> omega

theorem Relocation.Fits.apart (h : r.Fits b) (k : Nat) (lo : r.newStart ≤ i)
    (hi : i < r.newStart + r.npages) : r.source k ≠ i := by
  rintro rfl
  exact h.allocated _ (h.source_mem k).1 (h.source_mem k).2 (h.free _ lo hi)

/-- The pages copied to where they go. -/
def Relocation.copy (r : Relocation) (b : Block) : Block :=
  forRange 0 r.npages
    (fun b k => b.movePage (r.source k) (r.newStart + k) (k < r.count)) b

/-- The move a call makes, if it makes one. -/
def Block.relocation (b : Block) (addr : Range) (newSize : UInt64) (arena : Range)
    (maymove : Bool) : Option Relocation :=
  if !maymove || decide (newSize ≤ addr.size) then none
  else if (b.mremap addr newSize).1 ≠ .error .eexist then none
  else
    match b.validate addr with
    | none => none
    | some (start, count) =>
      if newSize ≠ alignDown newSize then none
      else
        match b.validate arena with
        | none => none
        | some (arenaStart, arenaCount) =>
          match b.findFreePages arenaStart arenaCount (newSize >>> 12).toNat with
          | none => none
          | some newStart => some ⟨start, count, newStart, (newSize >>> 12).toNat⟩

theorem Block.munmapImpl_error {adviseOnly : Bool} {e : Errno}
    (h : (b.munmapImpl addr adviseOnly).1 = .error e) : e = .einval := by
  unfold munmapImpl at h
  split at h
  · cases h
    rfl
  · split at h
    · cases h
      rfl
    · cases h

/-- A call that finds the pages after its range taken has changed nothing. -/
theorem Block.mremap_eexist {newSize : UInt64} (h : (b.mremap addr newSize).1 = .error .eexist) :
    (b.mremap addr newSize).2 = b ∧ ∃ start count, b.validate addr = some (start, count) ∧
      allPages start count (fun i => !b.isFree i) = true := by
  unfold mremap at h ⊢
  split at h
  · cases h
  next nonzero =>
    rw [if_neg nonzero]
    split at h
    · cases h
    next named =>
      rw [if_neg named]
      split at h
      · cases h
      next start count valid =>
        rw [valid]
        split at h
        next grows =>
          rw [if_pos grows]
          split at h
          · cases h
          next fullStart fullCount full =>
            split at h
            · cases h
            next allocated =>
              rw [if_neg allocated]
              split at h
              next taken =>
                rw [if_pos taken]
                exact ⟨rfl, start, count, rfl, by simpa using allocated⟩
              · cases h
        · split at h
          · cases h
          · split at h
            next e c unmapped =>
              cases h
              have refused := congrArg Prod.fst unmapped
              exact absurd (munmapImpl_error refused) (by decide)
            · cases h

/-- A call that may move is a call in place, or a move. -/
theorem Block.mremapMaymove_cases (h : b.Recorded) (addr : Range) (newSize : UInt64) (arena : Range)
    (maymove : Bool) :
    b.relocation addr newSize arena maymove = none ∧
        MemSteps b (b.mremapMaymove addr newSize arena maymove).2 ∨
      ∃ r, b.relocation addr newSize arena maymove = some r ∧ r.Fits b ∧
        (b.mremapMaymove addr newSize arena maymove).2 = ((r.copy b).munmapImpl addr false).2 := by
  have inPlace := b.mremap_steps addr newSize
  unfold relocation mremapMaymove
  split
  · exact .inl ⟨rfl, inPlace⟩
  next grows =>
    split
    next other =>
      refine .inl ⟨rfl, ?_⟩
      split
      next c answer =>
        rw [answer] at other
        exact absurd rfl other
      · exact inPlace
    next taken =>
      rw [not_not] at taken
      obtain ⟨same, start, count, valid, allocated⟩ := mremap_eexist taken
      have answer : b.mremap addr newSize = (.error .eexist, b) := Prod.ext taken same
      rw [answer, valid]
      dsimp only
      unfold mremapMove
      rw [valid]
      dsimp only
      have nonzero : newSize ≠ 0 := by
        simp only [Bool.or_eq_true, decide_eq_true_eq, not_or, UInt64.not_le] at grows
        rintro rfl
        exact absurd grows.2 (UInt64.not_lt_zero)
      by_cases aligned : newSize = alignDown newSize
      · have sized : ¬ (newSize = 0 ∨ newSize ≠ alignDown newSize) := by
          rintro (zero | unaligned)
          · exact nonzero zero
          · exact unaligned aligned
        rw [if_neg sized, if_neg (not_not_intro aligned), if_neg (by simp [allocated])]
        cases arenaValid : b.validate arena with
        | none => exact .inl ⟨rfl, .refl⟩
        | some place =>
          obtain ⟨arenaStart, arenaCount⟩ := place
          dsimp only
          cases found : b.findFreePages arenaStart arenaCount (newSize >>> 12).toNat with
          | none => exact .inl ⟨rfl, .refl⟩
          | some newStart =>
            have bounds := Control.validate_bounds valid
            have arenaBounds := Control.validate_bounds arenaValid
            have within := findFreePages_bounds found
            refine .inr ⟨_, rfl, ⟨bounds.1, bounds.2, ?_, fun i lo hi => ?_, fun i lo hi => ?_⟩,
              rfl⟩
            · dsimp only
              omega
            · have taken := allPages_iff.mp allocated i lo hi
              simpa [isFree] using taken
            · exact h.findFreePages_free arenaBounds.2 found lo hi
      · rw [if_pos (Or.inr aligned), if_pos aligned]
        exact .inl ⟨rfl, .refl⟩

/-- What a move knows of a page it overwrites: it is the page that was free there, given
the status of its source, and it takes the source's flag. -/
def Relocation.Moves (r : Relocation) (b : Block) (i : Nat) (p : Page) (invisible : Bool) : Prop :=
  ∃ k, k < r.npages ∧ i = r.newStart + k ∧ invisible = (b.page (r.source k)).invisible ∧
    p = ((b.page i).restatus b.epochActive (b.page (r.source k)).status).refreshed b.swappedIn

/-- The first `n` pages of a move. -/
theorem Relocation.copy_first (fits : r.Fits b) (n : Nat) (hn : n ≤ r.npages) :
    let c := forRange 0 n (fun b k => b.movePage (r.source k) (r.newStart + k) (k < r.count)) b
    HostSteps (r.Moves b) b c ∧
      ∀ j, ¬ (r.newStart ≤ j ∧ j < r.newStart + n) → c.page j = b.page j := by
  induction n with
  | zero => exact ⟨.refl, fun _ _ => rfl⟩
  | succ n ih =>
    obtain ⟨steps, apart⟩ := ih (by omega)
    rw [forRange_succ, Nat.zero_add]
    generalize forRange 0 n _ b = c at steps apart
    have control := HostSteps.toControl steps
    have new := fits.new
    have inside : r.newStart + n < c.npages := by
      rw [control]
      omega
    have here : c.page (r.newStart + n) = b.page (r.newStart + n) := apart _ (by omega)
    have source : c.page (r.source n) = b.page (r.source n) := by
      refine apart _ fun within => ?_
      exact fits.apart n within.1 (by omega) rfl
    have other : r.source n ≠ r.newStart + n := fits.apart n (by omega) (by omega)
    unfold Block.movePage
    dsimp only
    generalize asked : c.setProtections (r.newStart + n) 1 (c.page (r.source n)).status = d
    have page : ∀ j, d.page j = if j = r.newStart + n then
        ((c.page j).restatus c.epochActive (c.page (r.source n)).status).refreshed c.swappedIn
        else c.page j := by
      intro j
      rw [← asked, Block.setProtections_page]
      refine if_congr ?_ rfl rfl
      omega
    have sameControl : d.toControl = c.toControl := by
      rw [← asked, Block.setProtections_toControl]
    have protect : HostStep (r.Moves b) c d := by
      rw [← asked]
      refine .mem (.protect ?_ (by omega))
      rw [source]
      exact fits.allocated _ (fits.source_mem n).1 (fits.source_mem n).2
    refine ⟨(steps.tail protect).tail (.overwrite _ _ (by rw [sameControl]; exact inside) ?_),
      fun j hj => ?_⟩
    · refine ⟨n, by omega, rfl, ?_, ?_⟩
      · rw [page, if_neg other, source]
      · rw [page, if_pos rfl, here, source, control]
    · rw [Block.onPage_page_ne _ _ (by omega), page, if_neg (by omega)]
      exact apart j (by omega)

theorem Relocation.copy_steps (fits : r.Fits b) : HostSteps (r.Moves b) b (r.copy b) :=
  (copy_first fits r.npages (Nat.le_refl _)).1

/-- A call that may move, as steps of the host. -/
theorem Block.mremapMaymove_steps (h : b.Recorded) (addr : Range) (newSize : UInt64) (arena : Range)
    (maymove : Bool) :
    HostSteps
      (fun i p invisible => ∃ r, b.relocation addr newSize arena maymove = some r ∧
        r.Fits b ∧ r.Moves b i p invisible)
      b (b.mremapMaymove addr newSize arena maymove).2 := by
  rcases mremapMaymove_cases h addr newSize arena maymove with ⟨-, steps⟩ | ⟨r, is, fits, ends⟩
  · exact steps.host
  · rw [ends]
    refine .trans ?_ (munmapImpl_steps _ addr false).host
    refine HostSteps.mono (fun i p invisible moves => ⟨r, is, fits, moves⟩) ?_
    exact r.copy_steps fits

/-! ## Copies from outside -/

theorem Block.copyFromExternal_steps (b : Block) (src : Bytes) (start : UInt64) :
    HostSteps (fun _ p invisible => invisible = p.invisible) b
    (b.copyFromExternal src start).2 := by
  unfold copyFromExternal
  split
  · exact .refl
  next first count valid =>
    have bounds := Control.validate_bounds valid
    refine (forRange_inv (P := fun c : Block => c.toControl = b.toControl ∧ HostSteps
      (fun _ p invisible => invisible = p.invisible) b c) ⟨rfl, .refl⟩ ?_).2
    intro c i lo hi ⟨control, steps⟩
    refine ⟨control, steps.tail ?_⟩
    have inside : i < c.npages := by
      rw [control]
      omega
    have overwrite := HostStep.overwrite (Q := fun _ p invisible => invisible = p.invisible)
      (c.page i).invisible
      (fun old => old.patch src (start - b.addr.start).toNat i) inside rfl
    rw [control] at overwrite
    exact overwrite

end MiniBox
