import MiniBox.Host.Heap
import MiniBox.Host.Rest
import MiniBox.Threads.Record

/-!
# An unmap of a thread's own stack

A thread that ends gives back the stack it stands on and exits.  The unmap is answered at once and
done at the exit: it waits in the thread's record, which has room for one.  The answer is 0
whatever the range is, and a second such unmap takes the place of the first.

A `StackRun` follows one thread to its end, with a `Promise` for each unmap it was answered 0 for.
While each range held is one the block would have taken, and covers what was held before, and the
last of them can still be unmapped at the exit, every promise is kept (`StackRun.promises_kept`).
-/

namespace MiniBox

open Lib GuestMemory

/-! ## Ranges that can be unmapped -/

/-- All of the range is in the block, and allocated. -/
def Block.Unmappable (b : Block) (r : Range) : Prop := ∃ first count, b.Allocated r first count

/-- Page `i` is one of a range of the block. -/
def Block.Covers (b : Block) (r : Range) (i : Nat) : Prop :=
  ∃ first count, b.validate r = some (first, count) ∧ first ≤ i ∧ i < first + count

section Ranges

variable {b c : Block} {r : Range} {i : Nat}

theorem Block.validate_congr (place : c.addr = b.addr) (r : Range) :
    c.validate r = b.validate r := by
  unfold Control.validate
  rw [place]

theorem Block.covers_congr (place : c.addr = b.addr) : c.Covers r i ↔ b.Covers r i := by
  unfold Covers
  rw [validate_congr place]

theorem Block.unmappable_congr (place : c.addr = b.addr)
    (status : ∀ i, (c.page i).status = (b.page i).status) : c.Unmappable r ↔ b.Unmappable r := by
  simp only [Unmappable, Allocated, validate_congr place, status]

theorem Block.covers_empty (empty : r.size = 0) : ¬ b.Covers r i := by
  rintro ⟨first, count, valid, -⟩
  unfold Control.validate at valid
  rw [if_pos (.inl empty)] at valid
  cases valid

theorem Block.isFree_iff : b.isFree i = true ↔ (b.page i).status = stFree := by
  simp [isFree]

/-- An unmap goes through if all of the range is allocated, and changes nothing otherwise. -/
theorem Block.munmap_cases (b : Block) (r : Range) :
    (∃ e, b.munmap r = (.error e, b)) ∧ ¬ b.Unmappable r ∨
      b.Unmappable r ∧ (b.munmap r).1 = .ok () ∧
        ∀ i, b.Covers r i → (b.munmap r).2.isFree i = true := by
  rcases b.munmapImpl_cases r false with
    ⟨⟨e, refused⟩, none_⟩ | ⟨first, count, ⟨valid, allocated⟩, freed⟩
  · refine .inl ⟨⟨e, refused⟩, ?_⟩
    rintro ⟨first, count, valid, allocated⟩
    unfold munmapImpl at refused
    rw [valid] at refused
    dsimp only at refused
    rw [if_neg] at refused
    · cases refused
    · simpa [allPages_iff, isFree] using allocated
  · refine .inr ⟨⟨first, count, valid, allocated⟩, congrArg Prod.fst freed, ?_⟩
    rintro i ⟨first', count', valid', inside⟩
    rw [valid] at valid'
    cases valid'
    have cell := b.freePages_cells first count false i
    rw [if_pos inside] at cell
    rw [isFree_iff, show (b.munmap r).2 = _ from congrArg Prod.snd freed]
    exact congrArg PageCell.status cell

end Ranges

/-! ## Runs of one thread -/

/-- An unmap that was answered 0. -/
structure Promise where
  range : Range
  /-- the block would have taken it then -/
  accepted : Prop
  /-- the pages that were free since and mapped again -/
  again : Nat → Prop

def Promise.after (b c : Block) (p : Promise) : Promise :=
  { p with again := fun i => p.again i ∨ b.isFree i = true ∧ c.isFree i = false }

/-- What a `munmap` answered `w` promises. -/
def Host.promises (h : Host) (r : Range) (w : UInt64) : List Promise :=
  if w = 0 then [⟨r, (h.block.munmap r).1 = .ok (), fun _ => False⟩] else []

/-- The range that a call of `munmap` names. -/
def Args.unmapped (a : Args) : Range := ⟨a.a1, Host.pageLength a.a2⟩

/-- The machine from a moment at which thread `x` holds no unmap, with what `x` was promised since,
and whether it has exited.  The unmaps of `x` are `allowed`, and it exits in a state that is
`ready`. -/
inductive StackRun (allowed : Host → Range → Prop) (ready : Host → Prop) (x : UInt32) :
    Host → List Promise → Bool → Prop where
  | start {h : Host} {stack pending : Range} : h.threads.Held x stack pending → pending.size = 0 →
      StackRun allowed ready x h [] false
  /-- the guest's own work, and the frontend's -/
  | work {h h' : Host} {ps : List Promise} {gone : Bool} : StackRun allowed ready x h ps gone →
      h'.threads = h.threads → h'.block.addr = h.block.addr →
      StackRun allowed ready x h' (ps.map (Promise.after h.block h'.block)) gone
  | call {h h' : Host} {ps : List Promise} {gone : Bool} {nr : Nr} {a : Args} {w : UInt64} :
      StackRun allowed ready x h ps gone → h.serve nr a = .ok (w, h') →
      (gone = false → h.threads.activeTid = x → nr ≠ .munmap ∧ nr ≠ .exit) →
      StackRun allowed ready x h' (ps.map (Promise.after h.block h'.block)) gone
  | munmap {h h' : Host} {ps : List Promise} {a : Args} {w : UInt64} :
      StackRun allowed ready x h ps false → h.threads.activeTid = x → allowed h a.unmapped →
      h.serve .munmap a = .ok (w, h') →
      StackRun allowed ready x h'
        (h.promises a.unmapped w ++ ps.map (Promise.after h.block h'.block)) false
  | exit {h h' : Host} {ps : List Promise} {a : Args} {w : UInt64} :
      StackRun allowed ready x h ps false → h.threads.activeTid = x → ready h →
      h.serve .exit a = .ok (w, h') →
      StackRun allowed ready x h' (ps.map (Promise.after h.block h'.block)) true

/-- The range has to do with the stack of the running thread. -/
def Threads.OnStack (t : Threads) (r : Range) : Prop :=
  ∃ g, t.findThread t.activeTid = some g ∧ g.stack.size ≠ 0 ∧ r.start < g.stack.finish ∧
    g.stack.start < r.finish

/-- An unmap of the own stack is one the block would take, and leaves out no allocated page of the
unmap held before. -/
def Host.HoldsAll (h : Host) (r : Range) : Prop :=
  h.threads.OnStack r → h.block.Unmappable r ∧
    ∀ g, h.threads.findThread h.threads.activeTid = some g → ∀ i, h.block.Covers g.pending i →
      h.block.isFree i = true ∨ h.block.Covers r i

/-- What the running thread holds can be unmapped now, or is free. -/
def Host.ReadyToExit (h : Host) : Prop :=
  ∀ g, h.threads.findThread h.threads.activeTid = some g → h.block.Unmappable g.pending ∨
    ∀ i, h.block.Covers g.pending i → h.block.isFree i = true

/-! ## What each step does -/

section Steps

variable {h h' : Host} {x : UInt32} {w : UInt64} {t : Threads} {r : Range} {a : Args} {M : Type}
  {m m' : Machine M} {g : GThread} {nr : Nr}

theorem Threads.holdStackUnmap_onStack (on : t.OnStack r) :
    t.holdStackUnmap r = (true, t.onThread t.activeTid fun g => { g with pending := r }) := by
  obtain ⟨g, found, some_, below, above⟩ := on
  unfold holdStackUnmap
  rw [found]
  dsimp only
  rw [if_neg some_, if_neg]
  simpa using ⟨below, above⟩

theorem Threads.holdStackUnmap_apart (apart : ¬ t.OnStack r) : (t.holdStackUnmap r).1 = false := by
  unfold holdStackUnmap
  split
  · rfl
  next g found =>
    split
    · rfl
    next some_ =>
      split
      · rfl
      next touches =>
        simp only [Bool.or_eq_true, decide_eq_true_eq, not_or, UInt64.not_le] at touches
        exact absurd ⟨g, found, some_, touches⟩ apart

theorem serr_ne_zero (e : Errno) : serr e ≠ 0 := by
  cases e <;> decide

/-- A call for an unmap is refused, or held, or done. -/
theorem Host.munmap_cases (ran : h.serve .munmap a = .ok (w, h')) :
    (w ≠ 0 ∧ h'.threads = h.threads ∧ h'.block = h.block) ∨
      (h.threads.OnStack a.unmapped ∧ h'.block = h.block ∧ h'.threads =
        h.threads.onThread h.threads.activeTid fun g => { g with pending := a.unmapped }) ∨
      ((h.block.munmap a.unmapped).1 = .ok () ∧ h'.threads = h.threads ∧
        h'.block = (h.block.munmap a.unmapped).2 ∧
        ∀ i, h.block.Covers a.unmapped i → h'.block.isFree i = true) := by
  rw [serve] at ran
  have done : h.munmap a.a1 a.a2 = (w, h') := Except.ok.inj ran
  unfold munmap at done
  split at done
  · cases done
    exact .inl ⟨serr_ne_zero _, rfl, rfl⟩
  · dsimp only at done
    rw [show (⟨a.a1, pageLength a.a2⟩ : Range) = a.unmapped from rfl] at done
    by_cases on : h.threads.OnStack a.unmapped
    · rw [Threads.holdStackUnmap_onStack on] at done
      cases done
      exact .inr (.inl ⟨on, rfl, rfl⟩)
    · have apart := Threads.holdStackUnmap_apart on
      generalize h.threads.holdStackUnmap a.unmapped = held at apart done
      obtain ⟨taken, threads⟩ := held
      cases apart
      cases done
      rcases h.block.munmap_cases a.unmapped with ⟨⟨e, refused⟩, -⟩ | ⟨-, accepted, free⟩
      · rw [refused]
        exact .inl ⟨serr_ne_zero e, rfl, rfl⟩
      · exact .inr (.inr ⟨accepted, rfl, rfl, free⟩)

theorem Machine.exit_memory [GuestMemory M] (ran : m.exit = .ok (w, m')) :
    ∃ self, m'.memory = (m.leave self).memory := by
  unfold exit at ran
  split at ran
  · cases ran
  · split at ran
    · cases ran
    next self _ =>
      split at ran
      · cases ran
      next yielded =>
        have memory := yieldValue_memory yielded
        split at ran
        · cases ran
        · cases ran
          exact ⟨self, memory⟩

/-- What is there of the block when the thread is off its stack. -/
theorem Machine.leave_block (m : Machine Guest) (self : GThread) :
    (m.leave self).memory.block.addr = m.memory.block.addr ∧
      ∀ i, ((m.leave self).memory.block.page i).status = (m.memory.block.page i).status := by
  unfold leave
  split
  · exact ⟨rfl, fun _ => rfl⟩
  · exact ⟨m.memory.block.storeBytes_addr _ _, m.memory.block.storeBytes_status _ _⟩

/-- The memory after an exit. -/
theorem Machine.exitThread_memory [GuestAccess M]
    (found : m.threads.findThread m.threads.activeTid = some g) (ran : m.exitThread = .ok (w, m')) :
    ∃ threads self, m'.memory =
      if g.pending.size = 0 then (leave { m with threads } self).memory
      else GuestAccess.munmap (leave { m with threads } self).memory g.pending := by
  have held : m.threads.takeHeldUnmap.1 = if g.pending.size = 0 then none else some g.pending := by
    unfold Threads.takeHeldUnmap
    rw [found]
    dsimp only
    split_ifs <;> rfl
  unfold exitThread at ran
  generalize m.threads.takeHeldUnmap = taken at held ran
  obtain ⟨range, threads⟩ := taken
  dsimp only at held ran
  split at ran
  · cases ran
  next ended =>
    obtain ⟨self, memory⟩ := exit_memory ended
    refine ⟨threads, self, ?_⟩
    split_ifs at held ⊢
    · subst held
      cases ran
      exact memory
    · subst held
      cases ran
      exact congrArg (GuestAccess.munmap · g.pending) memory

/-- An exit frees what the thread holds. -/
theorem Host.exit_frees {i : Nat} (ready : h.ReadyToExit)
    (found : h.threads.findThread h.threads.activeTid = some g)
    (ran : h.serve .exit a = .ok (w, h')) (covers : h.block.Covers g.pending i) :
    h'.block.isFree i = true := by
  rw [serve, threadCall] at ran
  split at ran
  · cases ran
  next ended =>
    cases ran
    obtain ⟨threads, self, memory⟩ := Machine.exitThread_memory found ended
    obtain ⟨place, status⟩ := Machine.leave_block { h.toMachine with threads } self
    generalize (Machine.leave { h.toMachine with threads } self).memory =
      left at memory place status
    have some_ : g.pending.size ≠ 0 := fun empty => Block.covers_empty empty covers
    rw [if_neg some_] at memory
    unfold block
    dsimp only
    rw [memory]
    rcases left.block.munmap_cases g.pending with ⟨⟨e, refused⟩, not_⟩ | ⟨-, -, free⟩
    · rw [Block.unmappable_congr place status] at not_
      show (left.block.munmap g.pending).2.isFree i = true
      have free := ((ready g found).resolve_left not_) i covers
      rw [refused, Block.isFree_iff, status]
      exact Block.isFree_iff.mp free
    · exact free i ((Block.covers_congr place).mpr covers)

/-- No system call moves the block. -/
theorem Host.serve_place (ran : h.serve nr a = .ok (w, h')) : h'.block.addr = h.block.addr := by
  rcases serve_cases ran with same | ⟨-, -, -, rfl⟩ | ⟨c, -, called⟩
  · exact congrArg HostRest.place same
  · rfl
  · unfold threadCall at called
    split at called
    · cases called
    next answered =>
      cases called
      exact ThreadCall.kept Guest.addr_kept answered

/-- A system call changes nothing about a thread's stack and the unmap it holds, but for that
thread's own exit and unmaps. -/
theorem Host.serve_spares (ran : h.serve nr a = .ok (w, h'))
    (other : h.threads.activeTid = x → nr ≠ .munmap ∧ nr ≠ .exit) :
    Threads.Spares x h.threads h'.threads := by
  rcases serve_cases ran with same | ⟨unmaps, -, -, rfl⟩ | ⟨c, exits, called⟩
  · exact .same (congrArg (fun r : HostRest => r.threads.threads) same)
  · exact h.threads.holdStackUnmap_spares _ fun here => (other here).1 unmaps
  · unfold threadCall at called
    split at called
    · cases called
    next answered =>
      cases called
      exact ThreadCall.spares (fun exit here => (other here).2 (exits exit)) answered

end Steps

/-! ## Promises kept -/

/-- Every page of the range is free, or was mapped again, or is one of `waiting`. -/
def Promise.Good (waiting : Nat → Prop) (b : Block) (p : Promise) : Prop :=
  ∀ i, b.Covers p.range i → b.isFree i = true ∨ p.again i ∨ waiting i

section Kept

variable {waiting waiting' : Nat → Prop} {b c : Block} {p : Promise} {ps : List Promise}

theorem Promise.Good.after (good : p.Good waiting b) (place : c.addr = b.addr)
    (still : ∀ i, b.Covers p.range i → waiting i → c.isFree i = true ∨ waiting' i) :
    (p.after b c).Good waiting' c := by
  intro i covers
  have before := (Block.covers_congr place).mp covers
  cases free : c.isFree i with
  | true => exact .inl rfl
  | false =>
    rcases good i before with was | again | waits
    · exact .inr (.inl (.inr ⟨was, free⟩))
    · exact .inr (.inl (.inl again))
    · rcases still i before waits with now | waits
      · exact absurd now (by simp [free])
      · exact .inr (.inr waits)

/-- What holds of the promises while the thread lives, and when it is gone. -/
def StackRun.Known (x : UInt32) (h : Host) (ps : List Promise) : Bool → Prop
  | false => ∃ stack pending, h.threads.Held x stack pending ∧
      ∀ p ∈ ps, p.accepted ∧ p.Good (h.block.Covers pending) h.block
  | true => ∀ p ∈ ps, p.accepted ∧ p.Good (fun _ => False) h.block

theorem forall_map_after {P : Promise → Prop} (all : ∀ p ∈ ps, P (p.after b c)) :
    ∀ p ∈ ps.map (Promise.after b c), P p := by
  simpa using all

/-- What is known after a call for an unmap: of its own promise, and of those before. -/
theorem StackRun.Known.munmap {x : UInt32} {h h' : Host} {a : Args} {w : UInt64}
    {stack pending pending' : Range} (held : h'.threads.Held x stack pending')
    (place : h'.block.addr = h.block.addr)
    (all : ∀ p ∈ ps, p.accepted ∧ p.Good (h.block.Covers pending) h.block)
    (own : w = 0 → (h.block.munmap a.unmapped).1 = .ok () ∧
      ∀ i, h'.block.Covers a.unmapped i → h'.block.isFree i = true ∨ h'.block.Covers pending' i)
    (still : ∀ i, h.block.Covers pending i →
      h'.block.isFree i = true ∨ h'.block.Covers pending' i) :
    Known x h'
      (h.promises a.unmapped w ++ ps.map (Promise.after h.block h'.block)) false := by
  refine ⟨stack, pending', held, fun p member => ?_⟩
  rcases List.mem_append.mp member with new | old
  · unfold Host.promises at new
    split at new
    next zero =>
      cases List.mem_singleton.mp new
      obtain ⟨accepted, free⟩ := own zero
      refine ⟨accepted, fun i covers => ?_⟩
      rcases free i covers with now | waits
      · exact .inl now
      · exact .inr (.inr waits)
    · cases new
  · obtain ⟨q, inside, rfl⟩ := List.mem_map.mp old
    exact ⟨(all q inside).1, (all q inside).2.after place fun i _ => still i⟩

theorem StackRun.known {x : UInt32} {h : Host} {gone : Bool}
    (run : StackRun Host.HoldsAll Host.ReadyToExit x h ps gone) : Known x h ps gone := by
  induction run with
  | start held none_ => exact ⟨_, _, held, fun _ member => absurd member (by simp)⟩
  | @work h h' ps gone _ same place ih =>
    cases gone with
    | false =>
      obtain ⟨stack, pending, held, all⟩ := ih
      refine ⟨stack, pending, Threads.Spares.same (congrArg _ same) _ _ held, ?_⟩
      refine forall_map_after fun p member => ⟨(all p member).1, ?_⟩
      exact (all p member).2.after place fun i _ waits =>
        .inr ((Block.covers_congr place).mpr waits)
    | true =>
      refine forall_map_after fun p member => ⟨(ih p member).1, ?_⟩
      exact (ih p member).2.after place fun _ _ => .inr
  | @call h h' ps gone nr a w _ ran other ih =>
    have place := Host.serve_place ran
    cases gone with
    | false =>
      obtain ⟨stack, pending, held, all⟩ := ih
      refine ⟨stack, pending, Host.serve_spares ran (other rfl) _ _ held, ?_⟩
      refine forall_map_after fun p member => ⟨(all p member).1, ?_⟩
      exact (all p member).2.after place fun i _ waits =>
        .inr ((Block.covers_congr place).mpr waits)
    | true =>
      refine forall_map_after fun p member => ⟨(ih p member).1, ?_⟩
      exact (ih p member).2.after place fun _ _ => .inr
  | @munmap h h' ps a w _ active allowed ran ih =>
    obtain ⟨stack, pending, held, all⟩ := ih
    rcases Host.munmap_cases ran with
      ⟨refused, same, block⟩ | ⟨on, block, threads⟩ | ⟨accepted, same, block, free⟩
    · refine .munmap (Threads.Spares.same (congrArg _ same) _ _ held) (by rw [block]) all
        (fun zero => absurd zero refused) fun i waits => .inr ?_
      rw [block]
      exact waits
    · obtain ⟨g, found, rfl, rfl⟩ := held
      obtain ⟨whole, covers⟩ := allowed on
      have now : h'.threads.Held x g.stack a.unmapped := by
        refine ⟨{ g with pending := a.unmapped }, ?_, rfl, rfl⟩
        have changed := Threads.findThread_onThread
          (f := fun g => { g with pending := a.unmapped }) (fun _ => rfl) h.threads x
        rw [threads, active, changed, found]
        rfl
      refine .munmap now (by rw [block]) all (fun _ => ⟨?_, fun i waits => .inr waits⟩)
        fun i waits => ?_
      · rcases h.block.munmap_cases a.unmapped with ⟨-, not_⟩ | ⟨-, accepted, -⟩
        · exact absurd whole not_
        · exact accepted
      · rw [block]
        exact covers g (active ▸ found) i waits
    · have place := Host.serve_place ran
      refine .munmap (Threads.Spares.same (congrArg _ same) _ _ held) place all
        (fun _ => ⟨accepted, fun i covers => .inl ?_⟩) fun i waits => .inr ?_
      · exact free i ((Block.covers_congr place).mp covers)
      · exact (Block.covers_congr place).mpr waits
  | @exit h h' ps a w _ active ready ran ih =>
    obtain ⟨stack, pending, ⟨g, found, rfl, rfl⟩, all⟩ := ih
    rw [← active] at found
    refine forall_map_after fun p member => ⟨(all p member).1, ?_⟩
    exact (all p member).2.after (Host.serve_place ran) fun i _ waits =>
      .inl (Host.exit_frees ready found ran waits)

/-- Every unmap a thread was answered 0 for was one the block would have taken, and once the thread
has exited all of its pages are free but for those mapped again, while no unmap the thread holds
leaves out what it held before and the last one can be done at the exit. -/
theorem StackRun.promises_kept {x : UInt32} {h : Host} {gone : Bool}
    (run : StackRun Host.HoldsAll Host.ReadyToExit x h ps gone) :
    (∀ p ∈ ps, p.accepted) ∧ (gone = true → ∀ p ∈ ps, ∀ i, h.block.Covers p.range i →
      h.block.isFree i = true ∨ p.again i) := by
  have known := known run
  cases gone with
  | false =>
    obtain ⟨_, _, _, all⟩ := known
    exact ⟨fun p member => (all p member).1, fun wrong => by cases wrong⟩
  | true =>
    refine ⟨fun p member => (known p member).1, fun _ p member i covers => ?_⟩
    rcases (known p member).2 i covers with free | again | never
    · exact .inl free
    · exact .inr again
    · exact never.elim

end Kept

/-! ## Two unmaps -/

/-- Thread 2 on a stack of two pages, the first two of the block. -/
def Host.onStack : Host where
  threads :=
    { Threads.new with
      activeTid := 2, nextTid := 3
      threads := [{ tid := 1 }, { tid := 2, stack := ⟨0x100000000, 0x2000⟩ }]
      deadlines := [0, 0], seqs := [0, 0] }
  context := ⟨0, 0, 0, 0⟩
  memory := (fourPages.mmap 0x100000000 0x2000 3 0x20032).2.memory
  fs := { files := [], handles := [] }
  programBreak := 0x100000000

/-- What a system call leaves. -/
def Host.after (h : Host) (nr : Nr) (a : Args) : Host :=
  match h.serve nr a with
  | .ok (_, h') => h'
  | .error _ => h

def Host.answer (h : Host) (nr : Nr) (a : Args) : Option UInt64 :=
  match h.serve nr a with
  | .ok (w, _) => some w
  | .error _ => none

theorem Host.serve_after {h : Host} {nr : Nr} {a : Args} {w : UInt64}
    (said : h.answer nr a = some w) :
    h.serve nr a = .ok (w, h.after nr a) := by
  unfold answer at said
  unfold after
  split at said
  next ran =>
    cases said
    rw [ran]
  · cases said

theorem Block.unmappable_of_ok {b : Block} {r : Range} (ok : (b.munmap r).1.isOk = true) :
    b.Unmappable r := by
  rcases b.munmap_cases r with ⟨⟨e, refused⟩, -⟩ | ⟨whole, -⟩
  · rw [refused] at ok
    cases ok
  · exact whole

/-- The whole stack unmapped, and the thread gone. -/
def Host.unmapsWhole : Host := onStack.after .munmap { a1 := 0x100000000, a2 := 0x2000 }

theorem StackRun.promises_kept_once : ∃ p : Promise, p.range = ⟨0x100000000, 0x2000⟩ ∧ p.accepted ∧
    ∀ i, (Host.unmapsWhole.after .exit {}).block.Covers p.range i →
      (Host.unmapsWhole.after .exit {}).block.isFree i = true ∨ p.again i := by
  have start : StackRun Host.HoldsAll Host.ReadyToExit 2 Host.onStack [] false :=
    .start ⟨_, rfl, rfl, rfl⟩ rfl
  have allowed : Host.onStack.HoldsAll (Args.unmapped { a1 := 0x100000000, a2 := 0x2000 }) :=
      fun _ =>
    ⟨Block.unmappable_of_ok (by decide +kernel), fun g found i covers => by
      cases found
      exact absurd covers (Block.covers_empty rfl)⟩
  have held := start.munmap rfl allowed (Host.serve_after (w := 0) (by decide +kernel))
  have ready : Host.unmapsWhole.ReadyToExit := fun g found => by
    have pending : Host.unmapsWhole.threads.findThread Host.unmapsWhole.threads.activeTid =
      some { tid := 2, stack := ⟨0x100000000, 0x2000⟩, pending := ⟨0x100000000, 0x2000⟩ } := by
      decide +kernel
    rw [pending] at found
    cases found
    exact .inl (Block.unmappable_of_ok (by decide +kernel))
  have gone := held.exit (a := {}) (by decide +kernel) ready
    (Host.serve_after (w := 0) (by decide +kernel))
  obtain ⟨accepted, free⟩ := promises_kept gone
  exact ⟨_, rfl, accepted _ (List.mem_cons_self ..), free rfl _ (List.mem_cons_self ..)⟩

/-- The first page unmapped, and the second. -/
def Host.unmapsFirst : Host := onStack.after .munmap { a1 := 0x100000000, a2 := 0x1000 }

def Host.unmapsSecond : Host := unmapsFirst.after .munmap { a1 := 0x100001000, a2 := 0x1000 }

/-- A stack unmapped page by page: both unmaps are answered 0, and the first page is still
allocated when the thread is gone.  And an unmap of nothing inside the stack: it is answered 0, and
the block would have refused it. -/
theorem StackRun.unkept :
    (∃ ps, StackRun (fun _ _ => True) (fun _ => True) 2 (Host.unmapsSecond.after .exit {}) ps true ∧
      ∃ p ∈ ps, (Host.unmapsSecond.after .exit {}).block.Covers p.range 0 ∧
        (Host.unmapsSecond.after .exit {}).block.isFree 0 = false ∧ ¬ p.again 0) ∧
      ∃ h ps, StackRun (fun _ _ => True) (fun _ => True) 2 h ps false ∧ ∃ p ∈ ps, ¬ p.accepted := by
  have start : StackRun (fun _ _ => True) (fun _ => True) 2 Host.onStack [] false :=
    .start ⟨_, rfl, rfl, rfl⟩ rfl
  have first := start.munmap (a := { a1 := 0x100000000, a2 := 0x1000 }) rfl trivial
    (Host.serve_after (w := 0) (by decide +kernel))
  have second := first.munmap (a := { a1 := 0x100001000, a2 := 0x1000 }) (by decide +kernel) trivial
    (Host.serve_after (w := 0) (by decide +kernel))
  have gone := second.exit (a := {}) (by decide +kernel) trivial
    (Host.serve_after (w := 0) (by decide +kernel))
  have firstKept : Host.unmapsFirst.block.isFree 0 = false := by decide +kernel
  have secondKept : Host.unmapsSecond.block.isFree 0 = false := by decide +kernel
  have kept : (Host.unmapsSecond.after .exit {}).block.isFree 0 = false := by decide +kernel
  have none_ := start.munmap (a := { a1 := 0x100001000, a2 := 0 }) rfl trivial
    (Host.serve_after (w := 0) (by decide +kernel))
  refine ⟨⟨_, gone, _, List.mem_cons_of_mem _ (List.mem_cons_self ..),
    ⟨0, 1, ?_, by decide, by decide⟩,
    kept, ?_⟩, _, _, none_, _, List.mem_cons_self .., ?_⟩
  · decide +kernel
  · rintro ((never | ⟨free, -⟩) | ⟨free, -⟩)
    · exact never
    · cases firstKept.symm.trans free
    · cases secondKept.symm.trans free
  · intro accepted
    have refused : (Host.onStack.block.munmap ⟨0x100001000, 0⟩).1.isOk = false := by decide +kernel
    rw [show (Host.onStack.block.munmap ⟨0x100001000, 0⟩).1 = .ok () from accepted] at refused
    cases refused

end MiniBox
