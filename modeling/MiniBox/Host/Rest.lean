import MiniBox.Host.Dispatch
import MiniBox.Host.ThreadTurns

/-!
# What system calls leave alone

Past the check for a stop, no system call touches what the watchdog looks at or moves the block,
and only the thread and time calls touch the thread set, but for an unmap of the stack the thread
stands on, which is held in the thread's record.
-/

namespace MiniBox

open Lib GuestMemory

/-- What the watchdog and the check for a stop look at. -/
structure WatchFields where
  dead : Bool
  guarded : Bool
  haveStopThread : Bool
  activity : UInt64
  extraWork : UInt64
  stopPending : Bool
  stopActivity : UInt64
  stopWhy : String

/-- What a system call about memory or files has nothing to do with. -/
structure HostRest where
  watch : WatchFields
  threads : Threads
  context : Context
  /-- the block's addresses -/
  place : Range

/-! ## Where the block is -/

theorem Block.guestWrite_status (b : Block) (i : Nat) (bytes : PageBytes) (j : Nat) :
    ((b.guestWrite i bytes).page j).status = (b.page j).status := by
  rcases b.guestWrite_cases i bytes with
    nothing | ⟨hi, tracked, ⟨-, poked⟩ | ⟨swapped, c, served, poked⟩⟩
  · rw [nothing]
  · rw [poked, poke_page]
    split_ifs <;> rfl
  · obtain ⟨d, again, -, page, -⟩ := trip_served swapped hi tracked
    rw [served] at again
    cases again
    have status : (c.page j).status = (b.page j).status := by
      rw [page]
      split_ifs
      · simp [Page.released, tripPage]
      · rfl
    rw [poked, poke_page]
    split_ifs <;> exact status

theorem Block.storeBytes_status (b : Block) (addr : UInt64) (bs : Bytes) (j : Nat) :
    ((b.storeBytes addr bs).page j).status = (b.page j).status := by
  unfold storeBytes
  split_ifs
  · rfl
  · refine forRange_inv (P := fun c : Block => (c.page j).status = (b.page j).status) rfl
      fun c i _ _ same => ?_
    exact (c.guestWrite_status i _ j).trans same

theorem Block.storeBytes_addr (b : Block) (addr : UInt64) (bs : Bytes) :
    (b.storeBytes addr bs).addr = b.addr := by
  unfold storeBytes
  split_ifs
  · rfl
  · refine forRange_inv (P := fun c : Block => c.addr = b.addr) rfl fun c i _ _ same => ?_
    exact (congrArg Control.addr (c.guestWrite_toControl i _)).trans same

theorem Block.movePage_addr (b : Block) (source dest : Nat) (carries : Bool) :
    (b.movePage source dest carries).addr = b.addr := by
  have control := b.setProtections_toControl dest 1 (b.page source).status
  exact congrArg Control.addr ((onPage_toControl ..).trans control)

theorem Block.mremapMaymove_addr (b : Block) (addr : Range) (newSize : UInt64) (arena : Range)
    (maymove : Bool) : (b.mremapMaymove addr newSize arena maymove).2.addr = b.addr := by
  have inPlace := congrArg Control.addr (b.mremap_steps addr newSize).toControl
  unfold mremapMaymove
  split
  · exact inPlace
  · split
    next c refused =>
      rw [refused] at inPlace
      refine .trans ?_ inPlace
      have moved (first count start npages : Nat) : (forRange 0 npages (fun b k =>
          b.movePage (if k < count then first + k else first + count - 1) (start + k) (k < count))
          c).addr = c.addr :=
        forRange_inv (P := fun d : Block => d.addr = c.addr) rfl fun d k _ _ same =>
          (d.movePage_addr _ _ _).trans same
      unfold mremapMove
      dsimp only
      repeat' split
      all_goals first
        | rfl
        | exact (congrArg Control.addr (munmapImpl_steps _ _ _).toControl).trans (moved ..)
    · exact inPlace

theorem Guest.str_block (g : Guest) (addr : UInt64) : (g.str addr).2.block = g.block := by
  unfold str
  split
  · rfl
  · dsimp only
    split <;> rfl

theorem Guest.addr_kept : Machine.Kept fun g : Guest => g.block.addr where
  read32 _ _ := rfl
  read64 _ _ := rfl
  write32 g _ _ := g.block.storeBytes_addr _ _
  write64 g _ _ := g.block.storeBytes_addr _ _
  protectStack g r := congrArg Control.addr (g.block.mprotect_steps r .rwStack).toControl
  munmap g r := congrArg Control.addr (g.block.munmapImpl_steps r false).toControl

namespace Host

variable (h : Host)

def watch : WatchFields :=
  ⟨h.dead, h.guarded, h.haveStopThread, h.activity, h.extraWork, h.stopPending, h.stopActivity,
    h.stopWhy⟩

def rest : HostRest := ⟨h.watch, h.threads, h.context, h.block.addr⟩

/-! ## What a system call leaves alone -/

theorem withMemory_rest {memory : Guest} (place : memory.block.addr = h.block.addr) :
    (h.withMemory memory).rest = h.rest :=
  congrArg (HostRest.mk h.watch h.threads h.context) place

theorem withBlock_rest {block : Block} (place : block.addr = h.block.addr) :
    (h.withBlock block).rest = h.rest :=
  h.withMemory_rest place

@[simp] theorem stored_rest (addr : UInt64) (bytes : Bytes) :
    (h.withMemory (h.memory.store addr bytes)).rest = h.rest :=
  h.withMemory_rest (h.block.storeBytes_addr addr bytes)

/-- A memory call of the block's. -/
theorem called_rest {block : Block} (steps : MemSteps h.block block) :
    (h.withBlock block).rest = h.rest :=
  h.withBlock_rest (congrArg Control.addr steps.toControl)

@[simp] theorem withFiles_rest (fs : Files) : (h.withFiles fs).rest = h.rest := rfl

@[simp] theorem noteOutput_rest (before : UInt64) : (h.noteOutput before).rest = h.rest := by
  unfold noteOutput
  split_ifs <;> rfl

@[simp] theorem mmapAt_rest (r : Range) (prot : Prot) (noReplace : Bool) :
    (h.mmapAt r prot noReplace).2.rest = h.rest := by
  have called := h.called_rest
    (h.block.mmap_steps r prot h.memory.layout.mmapArena noReplace (h.threads.spec == 3))
  unfold mmapAt
  dsimp only
  split
  next answer =>
    rw [answer] at called
    exact called
  next answer =>
    rw [answer] at called
    dsimp only
    split_ifs <;> exact called

@[simp] theorem mmap_rest (addr len prot flags : UInt64) :
    (h.mmap addr len prot flags).2.rest = h.rest := by
  unfold mmap
  split
  · rfl
  · split_ifs
    all_goals first | rfl | exact mmapAt_rest ..

@[simp] theorem mremap_rest (addr len newLen flags : UInt64) :
    (h.mremap addr len newLen flags).2.rest = h.rest := by
  unfold mremap
  dsimp only
  split_ifs
  · exact h.withBlock_rest rfl
  · exact h.withBlock_rest (h.block.mremapMaymove_addr ..)
  · exact h.called_rest (h.block.mremap_steps ..)

@[simp] theorem mprotect_rest (addr len prot : UInt64) :
    (h.mprotect addr len prot).2.rest = h.rest := by
  unfold mprotect
  split
  · rfl
  · split_ifs
    · rfl
    · exact h.called_rest (h.block.mprotect_steps ..)

/-- An unmap may be held: the thread's record says so. -/
theorem munmap_rest (addr len : UInt64) : (h.munmap addr len).2.rest = h.rest ∨
      wraps len = false ∧ (h.threads.holdStackUnmap ⟨addr, pageLength len⟩).1 = true ∧
        (h.munmap addr len).2 =
          { h with threads := (h.threads.holdStackUnmap ⟨addr, pageLength len⟩).2 } := by
  unfold munmap
  split_ifs with wrapped
  · exact .inl rfl
  · dsimp only
    split
    next held => exact .inr ⟨by simpa using wrapped, by rw [held], by rw [held]⟩
    · exact .inl (h.called_rest (h.block.munmapImpl_steps ..))

@[simp] theorem madvise_rest (addr len advice : UInt64) :
    (h.madvise addr len advice).2.rest = h.rest := by
  unfold madvise
  split_ifs
  · rfl
  · exact h.called_rest (h.block.munmapImpl_steps ..)
  · rfl

@[simp] theorem brk_rest (a : UInt64) : (h.brk a).2.rest = h.rest := by
  unfold brk
  dsimp only
  split_ifs
  · rfl
  · exact h.called_rest (h.block.mmapFixed_steps ..)

@[simp] theorem put_rest (addr len : UInt64) (bytes : Bytes) (ok : UInt64) :
    (h.put addr len bytes ok).2.rest = h.rest := by
  unfold put
  split_ifs
  · rfl
  · exact stored_rest ..

@[simp] theorem ioctl_rest (req arg : UInt64) : (h.ioctl req arg).2.rest = h.rest := by
  unfold ioctl
  dsimp only
  split_ifs
  · rfl
  · exact put_rest ..

@[simp] theorem getrandom_rest (buf len : UInt64) : (h.getrandom buf len).2.rest = h.rest := by
  unfold getrandom
  generalize randomWords ((len.toNat + 7) / 8) h.getrandomState = drawn
  obtain ⟨bytes, state⟩ := drawn
  split_ifs
  · rfl
  · exact h.stored_rest buf (bytes.take len.toNat)

@[simp] theorem signalCall_rest (new old len : UInt64) :
    (h.signalCall new old len).2.rest = h.rest := by
  unfold signalCall
  split_ifs
  · rfl
  · rfl
  · exact put_rest ..

@[simp] theorem rtSigprocmask_rest (new old size : UInt64) :
    (h.rtSigprocmask new old size).2.rest = h.rest := by
  unfold rtSigprocmask
  split_ifs
  · rfl
  · exact signalCall_rest ..

@[simp] theorem schedGetaffinity_rest (len mask : UInt64) :
    (h.schedGetaffinity len mask).2.rest = h.rest := by
  unfold schedGetaffinity
  split
  · rfl
  · exact put_rest ..

@[simp] theorem stat_rest (name buf : UInt64) : (h.stat name buf).2.rest = h.rest := by
  have read := h.withMemory_rest (congrArg (·.addr) (h.memory.str_block name))
  unfold stat
  split
  next answer =>
    rw [answer] at read
    exact read
  next answer =>
    rw [answer] at read
    dsimp only
    split_ifs
    · exact read
    · split
      · exact read
      · exact (stored_rest ..).trans read

@[simp] theorem fstat_rest (fd buf : UInt64) : (h.fstat fd buf).2.rest = h.rest := by
  unfold fstat
  split_ifs
  · rfl
  · split
    · rfl
    · exact stored_rest ..

@[simp] theorem readInto_rest (fd : Int32) (buf len : UInt64) :
    (h.readInto fd buf len).2.rest = h.rest := by
  unfold readInto
  split
  · rfl
  · exact stored_rest ..

@[simp] theorem writeFrom_rest (fd : Int32) (buf len : UInt64) :
    (h.writeFrom fd buf len).2.rest = h.rest := by
  unfold writeFrom
  dsimp only
  split <;> rfl

@[simp] theorem read_rest (fd buf len : UInt64) : (h.read fd buf len).2.rest = h.rest := by
  unfold read
  split_ifs
  · rfl
  · exact readInto_rest ..

@[simp] theorem write_rest (fd buf len : UInt64) : (h.write fd buf len).2.rest = h.rest := by
  unfold write
  split_ifs
  · rfl
  · exact (noteOutput_rest _ _).trans (writeFrom_rest ..)

/-- An entry of a vector, moved the way the call goes. -/
theorem moveEntry_rest (reads : Bool) (fd : Int32) (base len : UInt64) :
    (if reads then h.readInto fd base len else h.writeFrom fd base len).2.rest = h.rest := by
  split_ifs
  · exact readInto_rest ..
  · exact writeFrom_rest ..

theorem vecLoop_rest (reads : Bool) (fd : Int32) (iov : UInt64) :
    ∀ (left i : Nat) (total : UInt64) (h : Host),
      (vecLoop reads fd iov left i total h).2.rest = h.rest
  | 0, _, _, _ => rfl
  | left + 1, i, total, h => by
    rw [vecLoop]
    dsimp only
    split
    · exact vecLoop_rest reads fd iov left (i + 1) total _
    · generalize (read64 h.memory (iov + 16 * UInt64.ofNat i)).1 = base
      generalize (read64 (h.withMemory (read64 h.memory (iov + 16 * UInt64.ofNat i)).2).memory
        (iov + 16 * UInt64.ofNat i + 8)).1 = len
      generalize is : (h.withMemory (read64 h.memory (iov + 16 * UInt64.ofNat i)).2).withMemory
        (read64 (h.withMemory (read64 h.memory (iov + 16 * UInt64.ofNat i)).2).memory
          (iov + 16 * UInt64.ofNat i + 8)).2 = k
      have same : k.rest = h.rest := by
        rw [← is]
        rfl
      have moved := k.moveEntry_rest reads fd base len
      generalize (if reads then k.fs.readAvail fd len else len) = want
      by_cases refused : (!k.memory.guestCan base want reads) = true
      · rw [if_pos refused]
        exact same
      · rw [if_neg refused]
        split
        next failed =>
          rw [failed] at moved
          exact moved.trans same
        next went =>
          rw [went] at moved
          exact (vecLoop_rest reads fd iov left (i + 1) _ _).trans (moved.trans same)

@[simp] theorem vectored_rest (reads : Bool) (fd iov count : UInt64) :
    (h.vectored reads fd iov count).2.rest = h.rest := by
  unfold vectored
  split_ifs
  · rfl
  · rfl
  · exact (noteOutput_rest _ _).trans (vecLoop_rest ..)

@[simp] theorem pread_rest (fd buf len offset : UInt64) :
    (h.pread fd buf len offset).2.rest = h.rest := by
  unfold pread
  dsimp only
  split
  · rfl
  · split
    · rfl
    · split_ifs
      · rfl
      · exact (withFiles_rest _ _).trans (readInto_rest ..)

@[simp] theorem pwrite_rest (fd buf len offset : UInt64) :
    (h.pwrite fd buf len offset).2.rest = h.rest := by
  unfold pwrite
  split_ifs
  · rfl
  · dsimp only
    split <;> rfl

@[simp] theorem openFile_rest (name : Bytes) (flags : UInt32) :
    (h.openFile name flags).2.rest = h.rest := by
  unfold openFile
  dsimp only
  split_ifs
  · rfl
  · split
    · rfl
    · split <;> rfl
  · split <;> rfl

theorem named_rest (addr : UInt64) {f : Host → Bytes → UInt64 × Host}
    (same : ∀ g name, (f g name).2.rest = g.rest) : (h.named addr f).2.rest = h.rest := by
  have read := h.withMemory_rest (congrArg (·.addr) (h.memory.str_block addr))
  unfold named
  split
  next answer =>
    rw [answer] at read
    exact read
  next answer =>
    rw [answer] at read
    exact (same _ _).trans read

@[simp] theorem open_rest (name flags : UInt64) : (h.open_ name flags).2.rest = h.rest :=
  h.named_rest name fun g name => g.openFile_rest name _

@[simp] theorem openat_rest (dirfd name flags : UInt64) :
    (h.openat dirfd name flags).2.rest = h.rest := by
  unfold openat
  split_ifs
  · rfl
  · exact open_rest ..

@[simp] theorem newfstatat_rest (dirfd name buf : UInt64) :
    (h.newfstatat dirfd name buf).2.rest = h.rest := by
  unfold newfstatat
  split_ifs
  · rfl
  · exact stat_rest ..

@[simp] theorem readlink_rest (name buf len : UInt64) :
    (h.readlink name buf len).2.rest = h.rest := by
  refine h.named_rest name fun g name => ?_
  split_ifs <;> rfl

@[simp] theorem readlinkat_rest (dirfd name buf len : UInt64) :
    (h.readlinkat dirfd name buf len).2.rest = h.rest := by
  unfold readlinkat
  split_ifs
  · rfl
  · exact readlink_rest ..

@[simp] theorem dup_rest (fd : UInt64) : (h.dup fd).2.rest = h.rest := by
  unfold dup
  split <;> rfl

@[simp] theorem lseek_rest (fd offset whence : UInt64) :
    (h.lseek fd offset whence).2.rest = h.rest := by
  unfold lseek
  split <;> rfl

@[simp] theorem truncate_rest (name size : UInt64) : (h.truncate name size).2.rest = h.rest :=
  h.named_rest name fun _ _ => rfl

variable {h}

theorem rest_of_ok {answer : UInt64 × Host} {w : UInt64} {g : Host} (same : answer.2.rest = h.rest)
    (ran : (.ok answer : Served) = .ok (w, g)) : g.rest = h.rest := by
  cases ran
  exact same

/-- A system call leaves the rest alone, or holds an unmap, or is one of the thread and time
calls. -/
theorem serve_cases {nr : Nr} {a : Args} {w : UInt64} {g : Host} (ran : h.serve nr a = .ok (w, g)) :
    g.rest = h.rest ∨
      (nr = .munmap ∧ wraps a.a2 = false ∧
        (h.threads.holdStackUnmap ⟨a.a1, pageLength a.a2⟩).1 = true ∧
        g = { h with threads := (h.threads.holdStackUnmap ⟨a.a1, pageLength a.a2⟩).2 }) ∨
      ∃ c : ThreadCall, (c = .exit → nr = .exit) ∧ h.threadCall c = .ok (w, g) := by
  cases nr <;> rw [serve] at ran
  case munmap =>
    have rest := h.munmap_rest a.a1 a.a2
    rw [Except.ok.inj ran] at rest
    rcases rest with same | held
    · exact .inl same
    · exact .inr (.inl ⟨rfl, held⟩)
  all_goals first
    | exact .inr (.inr ⟨_, fun same => by cases same <;> rfl, ran⟩)
    | exact .inl (rest_of_ok rfl ran)
    | exact .inl (rest_of_ok (by simp) ran)
    | exact .inl (rest_of_ok (put_rest ..) ran)
    | exact .inl (rest_of_ok (signalCall_rest ..) ran)
    | cases ran

end Host

end MiniBox
