import MiniBox.Lib.Bytes

/-!
# Functions that may stop

A function of type `α → Except ε β` answers or stops with a reason.  These are the rules for
the two ways it is put together, one after the other and in a loop: when the whole answers
and when it cannot stop.
-/

namespace MiniBox.Lib

variable {ε α β σ : Type}

/-! ## Answers -/

theorem bind_eq_ok {x : Except ε α} {f : α → Except ε β} {b : β} :
    (x >>= f) = .ok b ↔ ∃ a, x = .ok a ∧ f a = .ok b := by
  cases x with
  | error e => simp
  | ok a => simp

theorem forM_eq_ok {f : α → Except ε Unit} : ∀ {xs : List α},
    xs.forM f = .ok () ↔ ∀ x ∈ xs, f x = .ok ()
  | [] => by simp [pure, Except.pure]
  | x :: xs => by
    show (f x >>= fun _ => xs.forM f) = .ok () ↔ _
    rw [bind_eq_ok]
    simp only [forM_eq_ok, List.forall_mem_cons]
    constructor
    · rintro ⟨⟨⟩, head, rest⟩
      exact ⟨head, rest⟩
    · rintro ⟨head, rest⟩
      exact ⟨(), head, rest⟩

/-- Where `f` answers just on the arguments that fit it, and answers `g`, a table of answers
is a table of `g`. -/
theorem mapM_eq_ok {f : α → Except ε β} {fits : α → Prop} {g : α → β}
    (one : ∀ x y, f x = .ok y ↔ fits x ∧ y = g x) : ∀ {xs : List α} {ys : List β},
    xs.mapM f = .ok ys ↔ (∀ x ∈ xs, fits x) ∧ ys = xs.map g
  | [], ys => by
    rw [List.mapM_nil]
    constructor
    · rintro ⟨⟩
      exact ⟨List.forall_mem_nil _, rfl⟩
    · rintro ⟨-, rfl⟩
      rfl
  | x :: xs, ys => by
    rw [List.mapM_cons, bind_eq_ok, List.forall_mem_cons]
    constructor
    · rintro ⟨y, head, rest⟩
      obtain ⟨tail, mapped, ⟨⟩⟩ := bind_eq_ok.mp rest
      obtain ⟨fit, rfl⟩ := (one x y).mp head
      obtain ⟨fits, rfl⟩ := (mapM_eq_ok one).mp mapped
      exact ⟨⟨fit, fits⟩, rfl⟩
    · rintro ⟨⟨fit, fits⟩, rfl⟩
      refine ⟨g x, (one x _).mpr ⟨fit, rfl⟩, bind_eq_ok.mpr ⟨xs.map g, ?_, rfl⟩⟩
      exact (mapM_eq_ok one).mpr ⟨fits, rfl⟩

/-- A loop does not stop if no turn of it does. -/
theorem foldlM_ok {f : σ → α → Except ε σ} : ∀ (xs : List α) (s : σ),
    (∀ x ∈ xs, ∀ s, ∃ s', f s x = .ok s') → ∃ s', xs.foldlM f s = .ok s'
  | [], s, _ => ⟨s, rfl⟩
  | x :: xs, s, turns => by
    obtain ⟨s', head⟩ := turns x (by simp) s
    obtain ⟨s'', rest⟩ := foldlM_ok xs s' fun y member => turns y (List.mem_cons_of_mem x member)
    exact ⟨s'', by rw [List.foldlM_cons, head, ok_bind, rest]⟩

/-- What every turn keeps of the turns before it holds of a loop that has answered. -/
theorem foldlM_invariant {f : σ → α → Except ε σ} (inv : List α → σ → Prop)
    (turn : ∀ {done x s s'}, inv done s → f s x = .ok s' → inv (done ++ [x]) s') :
    ∀ {xs done : List α} {s s' : σ}, inv done s → xs.foldlM f s = .ok s' → inv (done ++ xs) s'
  | [], done, s, s', known, loop => by
    cases loop
    rwa [List.append_nil]
  | x :: xs, done, s, s', known, loop => by
    rw [List.foldlM_cons] at loop
    obtain ⟨s₁, first, rest⟩ := bind_eq_ok.mp loop
    have after := foldlM_invariant inv turn (turn known first) rest
    rwa [List.append_assoc] at after

end MiniBox.Lib
