import Mathlib.Data.List.Basic
import Mathlib.Logic.Function.Basic

/-!
# Which types hold handles

The bridge's generator asks `Registry.needs` of a type whether a value of it holds a handle or
a function pointer.  It is a search through members and extensions that keeps its answers.  A
type that is being looked at is answered False in the meantime, so that a cycle ends; what was
answered from that is kept too.
-/

namespace MiniBox.Vulkan

/-- A member of a structure. -/
structure Field (α : Type) where
  pNext : Bool
  type : α
  deriving DecidableEq

/-- What the generator reads of the registry, by the names of types. -/
structure Registry (α : Type) where
  handles : List α
  funcptrs : List α
  structs : List (α × List (Field α))
  alias_ : List (α × α) := []
  /-- a structure, and those it may be chained to -/
  extends_ : List (α × List α) := []
  declared : List α := []
  /-- `NULLED_PARAM_TYPES`: what the bridge replaces by a null pointer -/
  nulled : List α := []

namespace Registry

variable {α : Type} [DecidableEq α] (R : Registry α)

def canonFrom : Nat → α → α
  | 0, name => name
  | left + 1, name =>
    match R.alias_.lookup name with
    | some other => canonFrom left other
    | none => name

def canon (name : α) : α := R.canonFrom R.alias_.length name

def extensionsOf (name : α) : List α :=
  (R.extends_.filter fun e => e.2.contains name && R.declared.contains e.1).map Prod.fst

/-! ## The search -/

/-- `_needs`. -/
abbrev Cache (α : Type) := α → Option Bool

/-- A loop that asks of every one. -/
def askAll (ask : Cache α → α → Bool × Cache α) : Cache α → List α → Bool × Cache α
  | c, [] => (false, c)
  | c, x :: xs =>
    let (r, c) := ask c x
    let (r', c) := askAll ask c xs
    (r || r', c)

/-- `any`, which stops at the first that is so. -/
def askAny (ask : Cache α → α → Bool × Cache α) : Cache α → List α → Bool × Cache α
  | c, [] => (false, c)
  | c, x :: xs =>
    let (r, c) := ask c x
    if r then (true, c) else askAny ask c xs

/-- What a type needs that was not asked of yet. -/
def lookInto (ask : Cache α → α → Bool × Cache α) (c : Cache α) (name : α) : Bool × Cache α :=
  if R.handles.contains name || R.funcptrs.contains name then (true, c)
  else
    match R.structs.lookup name with
    | none => (false, c)
    | some fields =>
      if R.nulled.contains name then (false, c)
      else
        let (result, c) := askAll ask c ((fields.filter fun f => !f.pNext).map Field.type)
        if result then (true, c) else askAny ask c (R.extensionsOf name)

/-- `Registry.needs`, at most `left` deep. -/
def needsFrom : (left : Nat) → Cache α → α → Bool × Cache α
  | 0, c, _ => (false, c)
  | left + 1, c, name =>
    let name := R.canon name
    match c name with
    | some known => (known, c)
    | none =>
      -- cycles (the chain's own base types)
      let c := Function.update c name (some false)
      let (result, c) := R.lookInto (needsFrom left) c name
      (result, Function.update c name (some result))

/-- `Registry.needs`: a search meets each structure once. -/
def needs (c : Cache α) (name : α) : Bool × Cache α := R.needsFrom (R.structs.length + 1) c name

/-- What the generator may have asked, in any order. -/
inductive Asked : Cache α → Prop where
  | new : Asked fun _ => none
  | ask {c : Cache α} (name : α) : Asked c → Asked (R.needs c name).2

/-! ## What is meant -/

def Holds (name : α) : Prop := name ∈ R.handles ∨ name ∈ R.funcptrs

/-- The types a structure leads to: those of its members but `pNext`, and what may be chained. -/
def next (name : α) : List α :=
  match R.structs.lookup name with
  | none => []
  | some fields =>
    if R.nulled.contains name then []
    else (((fields.filter fun f => !f.pNext).map Field.type) ++ R.extensionsOf name).map R.canon

/-- A handle or a function pointer can be reached, through no type that is to be avoided. -/
inductive Leads (avoid : List α) : α → Prop where
  | holds {name : α} : R.Holds name → Leads avoid name
  | step {name other : α} : other ∈ R.next name → other ∉ avoid → Leads avoid other →
      Leads avoid name

def Reaches (name : α) : Prop := R.Leads [] name

/-- A way from type to type that meets none twice, the last first. -/
inductive Way : List α → α → Prop where
  | start (name : α) : Way [] name
  | step {way : List α} {name other : α} : Way way name → other ∈ R.next name →
      other ∉ name :: way → Way (name :: way) other

/-- Whatever way leads to a type, what can be reached from it can be reached off the way. -/
def Escapes : Prop := ∀ way name, R.Way way name → R.Reaches name → R.Leads way name

/-! ## The search finds it -/

variable {R} {name : α} {ask : Cache α → α → Bool × Cache α} {way : List α} {n : Nat} {c : Cache α}

theorem Leads.reaches {avoid : List α} (leads : R.Leads avoid name) : R.Reaches name := by
  induction leads with
  | holds here => exact .holds here
  | step next _ _ ih => exact .step next List.not_mem_nil ih

/-- The first step of a way out that does not come back. -/
theorem Leads.first {avoid : List α} {name : α} (leads : R.Leads avoid name) :
    R.Holds name ∨ ∃ other ∈ R.next name, other ∉ name :: avoid ∧ R.Reaches other := by
  induction leads with
  | holds here => exact .inl here
  | @step name other next apart rest ih =>
    by_cases back : other = name
    · subst back
      exact ih
    · refine .inr ⟨other, next, ?_, rest.reaches⟩
      simp [back, apart]

/-- What is kept, while the types of a way are being looked at. -/
structure Kept (R : Registry α) (way : List α) (c : Cache α) : Prop where
  open_ : ∀ name ∈ way, c name = some false
  right : ∀ name ∉ way, ∀ known, c name = some known → (known = true ↔ R.Reaches name)

/-- The structures that were not asked of. -/
def left (R : Registry α) (c : Cache α) : Nat := R.structs.countP fun s => (c s.1).isNone

/-- What one question answers and leaves. -/
structure Answers (R : Registry α) (way : List α) (c : Cache α) (name : α)
    (r : Bool × Cache α) : Prop where
  kept : R.Kept way r.2
  left : R.left r.2 ≤ R.left c
  answer : r.1 = true ↔ name ∉ way ∧ R.Reaches name

theorem askAll_answers : ∀ (names : List α) {c : Cache α}, R.Kept way c → R.left c < n →
    (∀ name ∈ names, ∀ c, R.Kept way c → R.left c < n →
      R.Answers way c (R.canon name) (ask c name)) →
    R.Kept way (askAll ask c names).2 ∧ R.left (askAll ask c names).2 ≤ R.left c ∧
      ((askAll ask c names).1 = true ↔ ∃ name ∈ names.map R.canon, name ∉ way ∧ R.Reaches name)
  | [], c, kept, _, _ => ⟨kept, Nat.le_refl _, by simp [askAll]⟩
  | name :: names, c, kept, few, each => by
    obtain ⟨kept', left', answer⟩ := each name List.mem_cons_self c kept few
    obtain ⟨kept'', left'', answers⟩ := askAll_answers names kept' (Nat.lt_of_le_of_lt left' few)
      fun other member => each other (List.mem_cons_of_mem _ member)
    refine ⟨kept'', Nat.le_trans left'' left', ?_⟩
    simp only [askAll, Bool.or_eq_true, answer, answers, List.map_cons, List.exists_mem_cons_iff]

theorem askAny_answers : ∀ (names : List α) {c : Cache α}, R.Kept way c → R.left c < n →
    (∀ name ∈ names, ∀ c, R.Kept way c → R.left c < n →
      R.Answers way c (R.canon name) (ask c name)) →
    R.Kept way (askAny ask c names).2 ∧ R.left (askAny ask c names).2 ≤ R.left c ∧
      ((askAny ask c names).1 = true ↔ ∃ name ∈ names.map R.canon, name ∉ way ∧ R.Reaches name)
  | [], c, kept, _, _ => ⟨kept, Nat.le_refl _, by simp [askAny]⟩
  | name :: names, c, kept, few, each => by
    obtain ⟨kept', left', answer⟩ := each name List.mem_cons_self c kept few
    simp only [askAny, List.map_cons, List.exists_mem_cons_iff, ← answer]
    split
    · rename_i yes
      exact ⟨kept', left', by simp [yes]⟩
    · rename_i no
      obtain ⟨kept'', left'', answers⟩ := askAny_answers names kept'
        (Nat.lt_of_le_of_lt left' few)
        fun other member => each other (List.mem_cons_of_mem _ member)
      exact ⟨kept'', Nat.le_trans left'' left', by simp [no, answers]⟩

/-- A type that is asked of for the first time is on the way. -/
theorem Kept.begin (kept : R.Kept way c) (name : α) :
    R.Kept (name :: way) (Function.update c name (some false)) where
  open_ other member := by
    by_cases same : other = name
    · rw [same, Function.update_self]
    · rw [Function.update_of_ne same]
      exact kept.open_ other ((List.mem_cons.mp member).resolve_left same)
  right other outside known found := by
    rw [List.mem_cons, not_or] at outside
    rw [Function.update_of_ne outside.1] at found
    exact kept.right other outside.2 known found

/-- Once it is answered, and rightly, it is off the way. -/
theorem Kept.close (kept : R.Kept (name :: way) c) (apart : name ∉ way) {result : Bool}
    (right : result = true ↔ R.Reaches name) :
    R.Kept way (Function.update c name (some result)) where
  open_ other member := by
    have other_ : other ≠ name := fun same => apart (same ▸ member)
    rw [Function.update_of_ne other_]
    exact kept.open_ other (List.mem_cons_of_mem _ member)
  right other outside known found := by
    by_cases same : other = name
    · rw [same, Function.update_self, Option.some.injEq] at found
      rw [same, ← found]
      exact right
    · rw [Function.update_of_ne same] at found
      exact kept.right other (by simp [same, outside]) known found

theorem left_update_le (c : Cache α) (name : α) (b : Bool) :
    R.left (Function.update c name (some b)) ≤ R.left c := by
  refine List.countP_mono_left fun s _ none_ => ?_
  by_cases same : s.1 = name
  · rw [same, Function.update_self] at none_
    cases none_
  · rwa [Function.update_of_ne same] at none_

theorem left_update_lt {fields : List (Field α)} (first : c name = none)
    (found : R.structs.lookup name = some fields) (b : Bool) :
    R.left (Function.update c name (some b)) < R.left c := by
  obtain ⟨before, after, is, -⟩ := List.lookup_eq_some_iff.mp found
  have here := left_update_le (R := { R with structs := before }) c name b
  have there := left_update_le (R := { R with structs := after }) c name b
  simp only [left, is, List.countP_append, List.countP_cons, Function.update_self, first]
    at here there ⊢
  simp
  omega

theorem not_reaches (none_ : ¬ R.Holds name) (last : R.next name = []) : ¬ R.Reaches name := by
  rintro (here | ⟨step, -, -⟩)
  · exact none_ here
  · rw [last] at step
    cases step

/-- What a type leads to says what it needs, if its way can be escaped. -/
theorem lookInto_answers (escapes : R.Escapes) (ask : Cache α → α → Bool × Cache α)
    (on : R.Way way name) (kept : R.Kept (name :: way) c)
    (few : R.structs.lookup name ≠ none → R.left c < n)
    (each : ∀ other, (R.canon other ∉ name :: way → R.Way (name :: way) (R.canon other)) → ∀ c,
      R.Kept (name :: way) c → R.left c < n →
        R.Answers (name :: way) c (R.canon other) (ask c other)) :
    R.Kept (name :: way) (R.lookInto ask c name).2 ∧ R.left (R.lookInto ask c name).2 ≤ R.left c ∧
      ((R.lookInto ask c name).1 = true ↔ R.Reaches name) := by
  have holds : (R.handles.contains name || R.funcptrs.contains name) = true ↔ R.Holds name := by
    simp [Holds]
  rw [lookInto]
  split
  · rename_i here
    exact ⟨kept, Nat.le_refl _, by simp [Reaches, Leads.holds (holds.mp here)]⟩
  · rename_i none_
    rw [holds] at none_
    split
    · rename_i unknown
      have last : R.next name = [] := by rw [next, unknown]
      exact ⟨kept, Nat.le_refl _, by simp [not_reaches none_ last]⟩
    · rename_i fields found
      split
      · rename_i nulled
        have last : R.next name = [] := by rw [next, found]; exact if_pos nulled
        exact ⟨kept, Nat.le_refl _, by simp [not_reaches none_ last]⟩
      · rename_i followed
        have last : R.next name = ((fields.filter fun f => !f.pNext).map Field.type).map R.canon ++
            (R.extensionsOf name).map R.canon := by
          rw [next, found, ← List.map_append]
          exact if_neg followed
        have reaches : R.Reaches name ↔
            ∃ other ∈ R.next name, other ∉ name :: way ∧ R.Reaches other := by
          constructor
          · exact fun reaches => (escapes way name on reaches).first.resolve_left none_
          · exact fun ⟨other, step, _, rest⟩ => .step step List.not_mem_nil rest
        have next_ : ∀ other, R.canon other ∈ R.next name → R.canon other ∉ name :: way →
            R.Way (name :: way) (R.canon other) := fun other step apart => on.step step apart
        have own : ∀ other ∈ (fields.filter fun f => !f.pNext).map Field.type,
            R.canon other ∈ R.next name := fun other member => by
          rw [last]
          exact List.mem_append_left _ (List.mem_map_of_mem member)
        have hung : ∀ other ∈ R.extensionsOf name, R.canon other ∈ R.next name :=
          fun other member => by
            rw [last]
            exact List.mem_append_right _ (List.mem_map_of_mem member)
        obtain ⟨kept', left', members⟩ := askAll_answers _ kept (few (by simp [found]))
          fun other member => each other (next_ other (own other member))
        simp only [reaches, last, List.mem_append, or_and_right, exists_or, ← members]
        split
        · rename_i yes
          exact ⟨kept', left', by simp [yes]⟩
        · rename_i no
          obtain ⟨kept'', left'', chained⟩ := askAny_answers (R.extensionsOf name) kept'
            (Nat.lt_of_le_of_lt left' (few (by simp [found])))
            fun other member => each other (next_ other (hung other member))
          exact ⟨kept'', Nat.le_trans left'' left', by simp [no, chained]⟩

theorem needsFrom_answers (escapes : R.Escapes) :
    ∀ {n : Nat} {way : List α} {c : Cache α} {name : α},
    (R.canon name ∉ way → R.Way way (R.canon name)) → R.Kept way c → R.left c < n →
    R.Answers way c (R.canon name) (R.needsFrom n c name)
  | 0, _, _, _, _, _, few => absurd few (Nat.not_lt_zero _)
  | n + 1, way, c, name, on, kept, few => by
    rw [needsFrom]
    generalize R.canon name = name at on
    dsimp only
    cases first : c name with
    | some known =>
      refine ⟨kept, Nat.le_refl _, ?_⟩
      by_cases member : name ∈ way
      · rw [kept.open_ name member] at first
        cases first
        simp [member]
      · simp [member, kept.right name member known first]
    | none =>
      have apart : name ∉ way := fun member => by
        rw [kept.open_ name member] at first
        cases first
      obtain ⟨kept', left', answer⟩ := R.lookInto_answers escapes (R.needsFrom n) (n := n)
        (on apart) (kept.begin name) (fun known => by
          obtain ⟨fields, found⟩ := Option.ne_none_iff_exists'.mp known
          have less := left_update_lt first found false
          omega)
        (fun other on' c' kept' few' => needsFrom_answers escapes on' kept' few')
      refine ⟨kept'.close apart answer, ?_, by simp [apart, answer]⟩
      exact Nat.le_trans (left_update_le _ _ _) (Nat.le_trans left' (left_update_le _ _ _))

/-- In a registry whose ways can all be escaped, and whatever was asked before, a type is said to
need translating just if a handle or a function pointer can be reached from it. -/
theorem Asked.needs_iff (escapes : R.Escapes) {c : Cache α} (asked : R.Asked c) (name : α) :
    (R.needs c name).1 = true ↔ R.Reaches (R.canon name) := by
  have few : ∀ c : Cache α, R.left c < R.structs.length + 1 := fun c =>
    Nat.lt_succ_of_le List.countP_le_length
  have kept : R.Kept [] c := by
    induction asked with
    | new => exact ⟨List.forall_mem_nil _, fun _ _ _ none_ => nomatch none_⟩
    | ask name _ ih => exact (needsFrom_answers escapes (fun _ => .start _) ih (few _)).kept
  have answers := R.needsFrom_answers escapes (fun _ => .start (R.canon name)) kept (few c)
  exact answers.answer.trans (and_iff_right List.not_mem_nil)

/-- Two structures with a member of each other's type: the first holds a handle besides, and the
second does or does not. -/
def pair (both : Bool) : Registry Nat where
  handles := [0]
  funcptrs := []
  structs := [(1, [⟨false, 2⟩, ⟨false, 0⟩]), (2, ⟨false, 1⟩ :: if both then [⟨false, 0⟩] else [])]

theorem pair_next {name : Nat} (leads : (pair true).next name ≠ []) :
    0 ∈ (pair true).next name := by
  by_cases first : name = 1
  · subst first
    decide
  · by_cases second : name = 2
    · subst second
      decide
    · refine absurd ?_ leads
      rw [next]
      simp [pair, List.lookup_cons, beq_false_of_ne first, beq_false_of_ne second]

theorem Way.leads (on : R.Way way name) : ∀ other ∈ way, R.next other ≠ [] := by
  induction on with
  | start => exact List.forall_mem_nil _
  | step _ step _ ih => exact List.forall_mem_cons.mpr ⟨List.ne_nil_of_mem step, ih⟩

/-- Where both hold a handle the ways can be escaped. -/
theorem Asked.needs_iff_pair : (pair true).Escapes ∧
    (((pair true).needs (fun _ => none) 2).1 = true ↔
      (pair true).Reaches ((pair true).canon 2)) := by
  have escapes : (pair true).Escapes := by
    intro way name on reaches
    by_cases here : (pair true).Holds name
    · exact .holds here
    · have leads : (pair true).next name ≠ [] := fun last => not_reaches here last reaches
      exact .step (pair_next leads) (fun member => on.leads 0 member (by decide))
        (.holds (.inl (List.mem_singleton_self 0)))
  exact ⟨escapes, needs_iff escapes .new 2⟩

/-- Where the second holds none itself and the first is asked of first, the second is said to need
nothing. -/
theorem Asked.needs_wrong : ∃ c, (pair false).Asked c ∧ ((pair false).needs c 2).1 = false ∧
    (pair false).Reaches ((pair false).canon 2) := by
  have first : 1 ∈ (pair false).next ((pair false).canon 2) := by decide
  have handle : 0 ∈ (pair false).next 1 := by decide
  refine ⟨_, .ask 1 .new, by decide, .step first List.not_mem_nil ?_⟩
  exact .step handle List.not_mem_nil (.holds (.inl (List.mem_singleton_self 0)))

end Registry

end MiniBox.Vulkan
