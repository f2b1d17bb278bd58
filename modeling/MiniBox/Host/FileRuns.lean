import MiniBox.Host.Handles

/-!
# Runs of the file table

A run is any sequence of operations on the table, by the host and by the guest, with loads
of tables that were saved in runs.  Beside the table it keeps the names: on which mount name
each descriptor was opened, whoever opened it.

A load takes the table it is given.  A file that was mounted to be read when the table was
saved, and open twice then, may be mounted to be written when it is loaded: it is then open
twice and written.  `FileRun.meansOpened` is about the runs in which no load does that.

A descriptor is an `int`, and past the last of them there is no lowest one.
-/

namespace MiniBox

open Lib Files

/-! ## Operations -/

inductive FileOp where
  | mount (name data : Bytes) (writable : Bool)
  | mountPath (name : Bytes) (content : Option Bytes)
  | mountPathWritable (name : Bytes) (made : Bool)
  | unmount (name : Bytes)
  | open_ (name : Bytes) (flags : UInt32)
  | dup (fd : Int32)
  | close (fd : Int32)
  | read (fd : Int32) (n : UInt64)
  | write (fd : Int32) (buf : Bytes)
  | pwrite (fd : Int32) (buf : Bytes) (offset : Int64)
  | seek (fd : Int32) (offset : Int64) (whence : Option Whence)
  | truncateName (name : Bytes) (size : Int64)
  | truncateFd (fd : Int32) (size : Int64)

namespace FileOp

def run (fs : Files) : FileOp → Files
  | .mount name data writable => (fs.mount name data writable).2
  | .mountPath name content => (fs.mountPath name content).2
  | .mountPathWritable name made => (fs.mountPathWritable name made).2
  | .unmount name => (fs.unmount name).2
  | .open_ name flags => (fs.open_ name flags).2
  | .dup fd => (fs.dup fd).2
  | .close fd => (fs.close fd).2
  | .read fd n => (fs.read fd n).2
  | .write fd buf => (fs.write fd buf).2
  | .pwrite fd buf offset => (fs.pwrite fd buf offset).2
  | .seek fd offset whence => (fs.seek fd offset whence).2
  | .truncateName name size => (fs.truncateName name size).2
  | .truncateFd fd size => (fs.truncateFd fd size).2

/-- What the descriptors were opened on, after an operation. -/
def names (fs : Files) (names : Int32 → Option Bytes) : FileOp → Int32 → Option Bytes
  | .open_ name flags =>
    match (fs.open_ name flags).1 with
    | .ok fd => Function.update names fd (some name)
    | .error _ => names
  | .dup fd =>
    match (fs.dup fd).1 with
    | .ok new => Function.update names new (names fd)
    | .error _ => names
  | .close fd =>
    match (fs.close fd).1 with
    | .ok _ => Function.update names fd none
    | .error _ => names
  | _ => names

/-- Mount names are C strings, and a buffer's length is a word. -/
def Valid : FileOp → Prop
  | .mount name _ _ => 0 ∉ name
  | .mountPath name _ => 0 ∉ name
  | .mountPathWritable name _ => 0 ∉ name
  | .write _ buf => buf.length < 2 ^ 64
  | .pwrite _ buf _ => buf.length < 2 ^ 64
  | _ => True

end FileOp

inductive FileStep where
  | op (op : FileOp)
  /-- a table whose descriptors were opened on these -/
  | load (names : Int32 → Option Bytes)

/-- There is a descriptor left for what is opened, and a table that is loaded names no file
twice that can be written here, and none by more than a word can count. -/
def FileStep.Fits (fs : Files) : FileStep → Prop
  | .op (.open_ _ _) => fs.handles.length < 2 ^ 31
  | .op (.dup _) => fs.handles.length < 2 ^ 31
  | .op _ => True
  | .load names => fs.Once names ∧ Telling names

/-- What the three streams are opened on. -/
def Files.streams (fd : Int32) : Option Bytes :=
  if fd = 0 then some stdinName
  else if fd = 1 then some stdoutName
  else if fd = 2 then some stderrName
  else none

/-- A table, and what its descriptors were opened on. -/
inductive FileRun (allowed : Files → FileStep → Prop) : Files → (Int32 → Option Bytes) → Prop where
  | new (linuxAnswers : Bool) : FileRun allowed { Files.new with linuxAnswers } Files.streams
  | op {fs : Files} {names : Int32 → Option Bytes} (op : FileOp) :
      FileRun allowed fs names → op.Valid → allowed fs (.op op) →
      FileRun allowed (op.run fs) (op.names fs names)
  | pread {h : Host} {names : Int32 → Option Bytes} (fd buf len offset : UInt64) :
      FileRun allowed h.fs names → FileRun allowed (h.pread fd buf len offset).2.fs names
  | pwrite {h : Host} {names : Int32 → Option Bytes} (fd buf len offset : UInt64) :
      FileRun allowed h.fs names → FileRun allowed (h.pwrite fd buf len offset).2.fs names
  | load {fs saved : Files} {names from_ : Int32 → Option Bytes} {bytes : Bytes} (rest : Bytes) :
      FileRun allowed fs names → FileRun allowed saved from_ → saved.saveHandles = some bytes →
      allowed fs (.load from_) →
      FileRun allowed (fs.loadHandles (bytes ++ rest)).2
        (match (fs.loadHandles (bytes ++ rest)).1 with
          | .loaded _ => from_
          | _ => names)

section Runs

variable {fs : Files} {names : Int32 → Option Bytes}

theorem Files.Kept.new (linuxAnswers : Bool) : Kept
    { Files.new with linuxAnswers } Files.streams := by
  have fds : (Files.new.handles.map OpenHandle.fd).Nodup := by decide
  have files : ∀ h ∈ Files.new.handles,
      (Files.new.files[h.file]?).map MountedFile.name = Files.streams h.fd ∧ 0 ≤ h.fd ∧ h.pos =
      0 := by
    decide
  have apart : ∀ h ∈ Files.new.handles, ∀ k ∈ Files.new.handles, h.file = k.file → h = k :=
      by decide
  refine ⟨⟨fds, fun h member => (files h member).2.1, fun h member => ?_, fun fd shut => ?_, ?_,
    ?_⟩,
    fun h left k right same _ _ _ _ => apart h left k right same, fun _ h member f _ => ?_⟩
  · have named := (files h member).1
    cases at_ : Files.new.files[h.file]? with
    | none =>
      have inside : ∀ h ∈ Files.new.handles, Files.new.files[h.file]? ≠ none := by decide
      exact absurd at_ (inside h member)
    | some f =>
      rw [at_] at named
      exact ⟨f, rfl, named.symm⟩
  · have zero := shut ⟨0, 0, 0⟩ (show _ ∈ Files.new.handles by decide)
    have one := shut ⟨1, 1, 0⟩ (show _ ∈ Files.new.handles by decide)
    have two := shut ⟨2, 2, 0⟩ (show _ ∈ Files.new.handles by decide)
    rw [Files.streams, if_neg (Ne.symm zero), if_neg (Ne.symm one), if_neg (Ne.symm two)]
  · show (Files.new.files.map MountedFile.name).Nodup
    decide
  · show ∀ f ∈ Files.new.files, 0 ∉ f.name
    decide
  · rw [(files h member).2.2]
    exact UInt64.zero_le

/-- One operation. -/
theorem FileOp.kept {op : FileOp} (kept : fs.Kept names) (valid : op.Valid)
    (fits : (FileStep.op op).Fits fs) : (op.run fs).Kept (op.names fs names) := by
  cases op with
  | mount name data writable => exact kept.mount valid data writable
  | mountPath name content => exact kept.mountPath valid content
  | mountPathWritable name made => exact kept.mountPathWritable valid made
  | unmount name => exact kept.unmount name
  | open_ name flags =>
    dsimp only [FileOp.run, FileOp.names]
    rcases kept.open_ fits name flags with ⟨e, same⟩ | ⟨new, fs', same, -, after⟩
    · rw [same]
      exact kept
    · rw [same]
      exact after
  | dup fd =>
    dsimp only [FileOp.run, FileOp.names]
    rcases kept.dup fits fd with ⟨e, same⟩ | ⟨new, fs', same, -, after⟩
    · rw [same]
      exact kept
    · rw [same]
      exact after
  | close fd =>
    dsimp only [FileOp.run, FileOp.names]
    rcases kept.close fd with same | ⟨fs', same, after⟩
    · rw [same]
      exact kept
    · rw [same]
      exact after
  | read fd n => exact kept.read fd n
  | write fd buf => exact kept.write fd valid
  | pwrite fd buf offset => exact kept.pwrite fd offset valid
  | seek fd offset whence => exact kept.seek fd offset whence
  | truncateName name size => exact kept.truncateName name size
  | truncateFd fd size => exact kept.truncateFd fd size

end Runs

/-! ## Reads and writes at an offset -/

section Offset

variable {fs : Files} {names : Int32 → Option Bytes} {fd : Int32} {o : OpenHandle} {f : MountedFile}

namespace Files

theorem moved_moved (fs : Files) (fd : Int32) (p q : UInt64) :
    (fs.moved fd p).moved fd q = fs.moved fd q := by
  have index : (fs.moved fd p).handleIndex fd = fs.handleIndex fd := by
    have fds : (fs.moved fd p).handles.map OpenHandle.fd = fs.handles.map OpenHandle.fd :=
      map_modify_self (fun _ => by rfl) _ _
    have same := congrArg (List.findIdx fun k => k == fd) fds
    rwa [List.findIdx_map, List.findIdx_map] at same
  have handles : ((fs.moved fd p).moved fd q).handles = (fs.moved fd q).handles := by
    show List.modify (fs.moved fd p).handles ((fs.moved fd p).handleIndex fd) _ = _
    rw [index]
    exact List.modify_modify_eq ..
  show { fs with handles := ((fs.moved fd p).moved fd q).handles } = _
  rw [handles]
  rfl

theorem Sound.moved_self (sound : fs.Sound names) (opened : fs.opened fd = some (o, f)) :
    fs.moved fd o.pos = fs := by
  obtain ⟨member, here, -⟩ := sound.opened.mp opened
  have handles : fs.handles.map (fun h => if h.fd = fd then { h with pos := o.pos } else h) =
      fs.handles := by
    refine (List.map_congr_left fun h among => ?_).trans (List.map_id _)
    split
    · rename_i same
      rw [sound.unique among member (same.trans here.symm)]
      rfl
    · rfl
  rw [moved, sound.onHandle, handles]

theorem Sound.moved (sound : fs.Sound names) (fd : Int32) (pos : UInt64) :
    (fs.moved fd pos).Sound names := by
  have keeps := fun h : OpenHandle => @ite_keeps (h.fd = fd) _ h { h with pos } ⟨rfl, rfl⟩
  have steady := sound.steady_files fs.files.length id (fun _ => rfl) keeps
  rw [List.modify_id] at steady
  rw [Files.moved, sound.onHandle]
  exact steady.sound sound

theorem opened_moved (opened : fs.opened fd = some (o, f)) (pos : UInt64) :
    (fs.moved fd pos).opened fd = some ({ o with pos }, f) := by
  have found : (fs.moved fd pos).handleByFd fd = (fs.handleByFd fd).map fun h => { h with pos } :=
    find?_modify_findIdx (fun _ => by rfl) fs.handles
  unfold Files.opened at opened ⊢
  rw [found]
  cases here : fs.handleByFd fd with
  | none => rw [here] at opened; cases opened
  | some k =>
    rw [here] at opened
    obtain ⟨q, at_, same⟩ := Option.map_eq_some_iff.mp opened
    cases same
    show (fs.files[o.file]?).map _ = _
    rw [at_]
    rfl

theorem seek_set (opened : fs.opened fd = some (o, f)) {newpos : Int64}
    (reaches : fs.Reaches f newpos) :
    fs.seek fd newpos (some .set) = (.ok newpos, fs.moved fd newpos.toUInt64) := by
  rcases fs.seek_cases fd newpos (some .set) with ⟨e, -, none_⟩ | ⟨h, g, w, -, some_, -, there⟩
  · exact absurd reaches (none_ o f .set opened rfl)
  · cases some_
    exact there

/-- A change of a descriptor's position is a move. -/
theorem Sound.onHandle_pos (sound : fs.Sound names) (opened : fs.opened fd = some (o, f))
    (g : UInt64 → UInt64) :
    fs.onHandle fd (fun h => { h with pos := g h.pos }) = fs.moved fd (g o.pos) := by
  obtain ⟨member, here, -⟩ := sound.opened.mp opened
  rw [Files.moved, sound.onHandle, sound.onHandle]
  congr 1
  refine List.map_congr_left fun h among => ?_
  split
  · rename_i same
    rw [sound.unique among member (same.trans here.symm)]
  · rfl

/-- A read leaves its descriptor somewhere. -/
theorem Sound.read_moved (sound : fs.Sound names) (opened : fs.opened fd = some (o, f))
    (n : UInt64) : (fs.read fd n).2 = fs ∨ ∃ p, (fs.read fd n).2 = fs.moved fd p := by
  unfold read
  rw [opened]
  dsimp only
  split
  · exact .inl rfl
  · split
    · exact .inl rfl
    · exact .inr ⟨_, sound.onHandle_pos opened fun p => p + _⟩

end Files

theorem Host.readInto_fs (h : Host) (fd : Int32) (buf len : UInt64) :
    (h.readInto fd buf len).2.fs = (h.fs.read fd len).2 := by
  unfold readInto
  split
  · rename_i read
    rw [read]
    rfl
  · rename_i read
    rw [read]
    rfl

/-- `pread64` leaves the table as it was. -/
theorem Host.pread_fs {h : Host} (sound : h.fs.Sound names) (fd buf len offset : UInt64) :
    (h.pread fd buf len offset).2.fs = h.fs := by
  unfold pread
  dsimp only
  generalize intArg fd = fd
  rcases h.fs.seek_cases fd 0 (some .cur) with ⟨e, asked, -⟩ | ⟨o, f, w, opened, cur, reaches,
    asked⟩
  · rw [asked]
    rfl
  · cases cur
    rw [asked]
    dsimp only
    have here : (Whence.cur.place o f 0).toUInt64 = o.pos :=
      congrArg Int64.toUInt64 (Int64.add_zero o.pos.toInt64)
    generalize Whence.cur.place o f 0 = pos at here reaches
    rw [here, sound.moved_self opened]
    rcases h.fs.seek_cases fd offset.toInt64 (some .set) with
      ⟨e, there, -⟩ | ⟨_, _, w, -, -, -, there⟩
    · rw [there]
      rfl
    · rw [there]
      dsimp only
      -- from wherever the descriptor stands, the last seek brings it back
      have back : ∀ p, ((h.fs.moved fd p).seek fd pos (some .set)).2 = h.fs := fun p => by
        rw [Files.seek_set (Files.opened_moved opened p) reaches]
        show (h.fs.moved fd p).moved fd pos.toUInt64 = h.fs
        rw [Files.moved_moved, here, sound.moved_self opened]
      split
      · exact back _
      · show ((readInto _ fd buf len).2.fs.seek fd pos (some .set)).2 = h.fs
        rw [readInto_fs]
        generalize (w.place _ _ _).toUInt64 = newpos
        change (((h.fs.moved fd newpos).read fd len).2.seek fd pos (some .set)).2 = h.fs
        rcases (sound.moved fd newpos).read_moved (Files.opened_moved opened _) len with
          same | ⟨p, went⟩
        · rw [same]
          exact back _
        · rw [went, Files.moved_moved]
          exact back p

theorem Host.pwrite_fs (h : Host) (fd buf len offset : UInt64) :
    (h.pwrite fd buf len offset).2.fs = h.fs ∨ ∃ bytes : Bytes, bytes.length < 2 ^ 64 ∧
      (h.pwrite fd buf len offset).2.fs = (h.fs.pwrite (intArg fd) bytes offset.toInt64).2 := by
  unfold pwrite
  split
  · exact .inl rfl
  · refine .inr ⟨(h.memory.load buf len).1, ?_, ?_⟩
    · show (h.memory.block.bytesAt buf len.toNat).length < 2 ^ 64
      rw [Block.bytesAt, List.length_map, List.length_range]
      exact len.toNat_lt
    · dsimp only
      split
      · rename_i wrote
        rw [wrote]
        rfl
      · rename_i wrote
        rw [wrote]
        rfl

/-- `pwrite64` leaves every descriptor where it was. -/
theorem Files.pwrite_handles (fs : Files) (fd : Int32) (buf : Bytes) (offset : Int64) :
    (fs.pwrite fd buf offset).2.handles = fs.handles := by
  unfold pwrite
  split
  · rfl
  · dsimp only
    split_ifs <;> rfl

end Offset

/-! ## What descriptors mean -/

/-- What holds of a table whose descriptors were opened on `names`. -/
structure Files.Means (fs : Files) (names : Int32 → Option Bytes) : Prop where
  distinct : (fs.handles.map OpenHandle.fd).Nodup
  /-- each descriptor is on the file it was opened on -/
  names : ∀ fd, (fs.opened fd).map (fun o => o.2.name) = names fd
  single : fs.Single
  bounded : fs.Bounded
  /-- each new descriptor is the lowest that is free -/
  opens : fs.handles.length < 2 ^ 31 → ∀ name flags new,
    (fs.open_ name flags).1 = .ok new → fs.Lowest new
  dups : fs.handles.length < 2 ^ 31 → ∀ fd new, (fs.dup fd).1 = .ok new → fs.Lowest new
  pread : ∀ h : Host, h.fs = fs → ∀ fd buf len offset,
    (h.pread fd buf len offset).2.fs.handles = fs.handles
  pwrite : ∀ h : Host, h.fs = fs → ∀ fd buf len offset,
    (h.pwrite fd buf len offset).2.fs.handles = fs.handles

section Means

variable {fs : Files} {names : Int32 → Option Bytes}

theorem Files.Kept.means (kept : fs.Kept names) : fs.Means names := by
  refine ⟨kept.sound.fds, kept.sound.means, kept.single, kept.bounded, ?_, ?_, ?_, ?_⟩
  · intro small name flags new opened
    rcases kept.open_ small name flags with ⟨e, same⟩ | ⟨fd, fs', same, low, -⟩
    · rw [same] at opened
      cases opened
    · rw [same] at opened
      cases opened
      exact low
  · intro small fd new opened
    rcases kept.dup small fd with ⟨e, same⟩ | ⟨fd', fs', same, low, -⟩
    · rw [same] at opened
      cases opened
    · rw [same] at opened
      cases opened
      exact low
  · rintro h rfl fd buf len offset
    rw [Host.pread_fs kept.sound]
  · rintro h rfl fd buf len offset
    rcases h.pwrite_fs fd buf len offset with same | ⟨bytes, -, same⟩
    · rw [same]
    · rw [same, pwrite_handles]

/-- What is known along a run. -/
theorem FileRun.kept (run : FileRun (fun fs step => step.Fits fs) fs names) : fs.Kept names := by
  induction run with
  | new linuxAnswers => exact .new linuxAnswers
  | op op _ valid fits kept => exact FileOp.kept kept valid fits
  | pread fd buf len offset _ kept =>
    rw [Host.pread_fs kept.sound]
    exact kept
  | @pwrite h _ fd buf len offset _ kept =>
    rcases h.pwrite_fs fd buf len offset with same | ⟨bytes, size, same⟩
    · rw [same]
      exact kept
    · rw [same]
      exact kept.pwrite _ _ size
  | load rest _ _ wrote fits kept source =>
    rw [source.sound.loadHandles fits.2 wrote]
    split
    · split
      · exact kept
      · rename_i loaded
        exact kept.loaded source.sound fits.1 loaded
    · exact kept

/-- In every run whose loads open no file twice that can be written, a descriptor means what
was opened. -/
theorem FileRun.meansOpened (run : FileRun (fun fs step => step.Fits fs) fs names) :
    fs.Means names :=
  run.kept.means

end Means

/-! ## A file open twice and written -/

/-- "save". -/
def Files.saveName : Bytes := [0x73, 0x61, 0x76, 0x65]

/-- A file mounted to be read, open twice. -/
def Files.openTwice : Files :=
  let fs := (new.mount saveName [1, 2] false).2
  ((fs.open_ saveName 0).2.open_ saveName 0).2

theorem FileRun.step {allowed : Files → FileStep → Prop} {fs : Files} {names : Int32 → Option Bytes}
    (run : FileRun allowed fs names) (op : FileOp) (valid : op.Valid) (ok : allowed fs (.op op)) :
    ∃ names, FileRun allowed (op.run fs) names :=
  ⟨_, .op op run valid ok⟩

theorem FileRun.openTwice (allowed : Files → FileStep → Prop)
    (all : ∀ fs op, (FileStep.op op).Fits fs → allowed fs (.op op)) :
    ∃ names, FileRun allowed Files.openTwice names := by
  have few : 4 < 2 ^ 31 := by decide
  have run : FileRun allowed _ _ := .new false
  obtain ⟨_, run⟩ := run.step (.mount saveName [1, 2] false) (show 0 ∉ saveName by decide)
    (all _ _ trivial)
  obtain ⟨_, run⟩ := run.step (.open_ saveName 0) trivial (all _ _ (show 3 < 2 ^ 31 by decide))
  obtain ⟨_, run⟩ := run.step (.open_ saveName 0) trivial (all _ _ few)
  exact ⟨_, run⟩

/-- The second open gets the descriptor behind the first. -/
theorem FileRun.meansOpened_openTwice : ∃ names, FileRun
    (fun fs step => step.Fits fs) Files.openTwice names ∧
    Files.openTwice.Means names ∧ Files.openTwice.handles.map OpenHandle.fd = [0, 1, 2, 3, 4] := by
  obtain ⟨names, run⟩ := openTwice _ fun _ _ fits => fits
  exact ⟨names, run, meansOpened run, rfl⟩

/-- The file closed, unmounted, and mounted to be written. -/
def Files.remounted : Files :=
  let fs := (openTwice.close 3).2
  let fs := (fs.close 4).2
  let fs := (fs.unmount saveName).2
  (fs.mount saveName [1, 2] true).2

/-- The table of the two is loaded after the file has been mounted to be written: two
descriptors are open on it. -/
theorem FileRun.writable_twice : ∃ fs names, FileRun (fun _ _ => True) fs names ∧
    (fs.opened 3).map (fun o => (o.2.name, o.2.writable)) = some (saveName, true) ∧
    (fs.opened 4).map (fun o => (o.2.name, o.2.writable)) = some (saveName, true) ∧
    ¬ fs.Means names := by
  obtain ⟨_, saved⟩ := openTwice (fun _ _ => True) fun _ _ _ => trivial
  obtain ⟨_, run⟩ := saved.step (.close 3) trivial trivial
  obtain ⟨_, run⟩ := run.step (.close 4) trivial trivial
  obtain ⟨_, run⟩ := run.step (.unmount saveName) trivial trivial
  obtain ⟨_, run⟩ : ∃ names, FileRun (fun _ _ => True) Files.remounted names :=
    run.step (.mount saveName [1, 2] true) (show 0 ∉ saveName by decide) trivial
  have wrote : Files.openTwice.saveHandles = some (Files.openTwice.saveHandles.getD []) := by decide
  have loaded : (Files.remounted.loadHandles
      (Files.openTwice.saveHandles.getD [] ++ [])).2.handles =
      [⟨0, 0, 0⟩, ⟨1, 1, 0⟩, ⟨2, 2, 0⟩, ⟨3, 3, 0⟩, ⟨4, 3, 0⟩] := by decide +kernel
  have run := run.load [] saved wrote trivial
  refine ⟨_, _, run, by decide +kernel, by decide +kernel, fun means => ?_⟩
  have one := means.single ⟨3, 3, 0⟩ (by rw [loaded]; simp) ⟨4, 3, 0⟩ (by rw [loaded]; simp) rfl
    ⟨saveName, .regular, [1, 2], 2, true⟩ (by decide +kernel) rfl rfl
  exact absurd one (by decide)

/-! ## A table in a state -/

/-- What a descriptor is open on, and where in it. -/
def Files.sight (fs : Files) (fd : Int32) : Option (Bytes × UInt64) :=
  (fs.opened fd).map fun o => (o.2.name, o.1.pos)

/-- What was saved of one table is loaded into another as it was, and saved again the same. -/
def Files.Survives (fs u : Files) : Prop :=
  ∃ bytes u', fs.saveHandles = some bytes ∧ u.loadHandles bytes = (.loaded [], u') ∧
    (∀ fd, u'.sight fd = fs.sight fd) ∧ u'.saveHandles = some bytes

section Survives

variable {fs u : Files} {names : Int32 → Option Bytes}

namespace Files

theorem Sound.sight (sound : fs.Sound names) {fd : Int32} {name : Bytes} {pos : UInt64} :
    fs.sight fd = some (name, pos) ↔
      ∃ h ∈ fs.handles, h.fd = fd ∧ h.pos = pos ∧ names fd = some name := by
  unfold Files.sight
  rw [Option.map_eq_some_iff]
  constructor
  · rintro ⟨⟨h, f⟩, opened, same⟩
    cases same
    have means := sound.means fd
    rw [opened] at means
    obtain ⟨member, here, -⟩ := sound.opened.mp opened
    exact ⟨h, member, here, rfl, means.symm⟩
  · rintro ⟨h, member, rfl, rfl, named⟩
    obtain ⟨f, at_, same⟩ := sound.file h member
    rw [named] at same
    exact ⟨(h, f), sound.opened.mpr ⟨member, rfl, at_⟩, by rw [Option.some.inj same]⟩

/-- The records are what is seen of the table. -/
theorem Sound.mem_records (sound : fs.Sound names) {r : HandleRecord} :
    r ∈ fs.records ↔ fs.sight r.fd = some (r.name, r.pos) := by
  rw [sound.records.2, sound.sight]
  constructor
  · rintro ⟨h, member, fd, pos, named⟩
    exact ⟨h, member, fd.symm, pos.symm, fd ▸ named⟩
  · rintro ⟨h, member, fd, pos, named⟩
    exact ⟨h, member, fd.symm, pos.symm, fd ▸ named⟩

/-- What a load that works has read: few records with short names. -/
theorem loadLoop_loaded : ∀ {count : Nat} {last : Int32} {stream rest : Bytes}
    {handles : List OpenHandle}, u.loadLoop count last stream = some (some handles, rest) →
    handles.length = count ∧
      ∀ h ∈ handles, ∃ r : HandleRecord, r.name.length < 4096 ∧ u.handleOf r = some h
  | 0, last, stream, rest, handles, loaded => by
    cases loaded
    simp
  | count + 1, last, stream, rest, handles, loaded => by
    rw [loadLoop] at loaded
    simp only [Option.bind_eq_bind, Option.bind_eq_some_iff] at loaded
    obtain ⟨⟨r, stream'⟩, read, loaded⟩ := loaded
    dsimp only at loaded
    split at loaded
    · cases loaded
    · split at loaded
      · obtain ⟨_, _, wrong⟩ := Option.bind_eq_some_iff.mp loaded
        cases wrong
      · rename_i h made
        simp only [Option.bind_eq_some_iff] at loaded
        obtain ⟨⟨others, stream''⟩, more, same⟩ := loaded
        cases others with
        | none => cases same
        | some others =>
          cases same
          obtain ⟨length, from_⟩ := loadLoop_loaded more
          refine ⟨by rw [List.length_cons, length], fun k member => ?_⟩
          rcases List.mem_cons.mp member with rfl | inside
          · exact ⟨r, HandleRecord.read_short read, made⟩
          · exact from_ k inside

theorem loadHandles_loaded {bytes rest : Bytes} {u' : Files}
    (loaded : u.loadHandles bytes = (.loaded rest, u')) :
    u'.files = u.files ∧ u'.handles.length ≤ 65536 ∧
      ∀ h ∈ u'.handles, ∃ r : HandleRecord, r.name.length < 4096 ∧ u.handleOf r = some h := by
  unfold loadHandles at loaded
  split at loaded
  · cases loaded
  · rename_i n stream _
    split at loaded
    · cases loaded
    · rename_i few
      split at loaded
      · cases loaded
      · cases loaded
      · rename_i handles _ loop
        cases loaded
        obtain ⟨length, from_⟩ := loadLoop_loaded loop
        refine ⟨rfl, ?_, from_⟩
        show handles.length ≤ 65536
        rw [length]
        exact UInt32.le_iff_toNat_le.mp (UInt32.not_lt.mp few)

/-- Two files of one name, in tables with the same files, are one file. -/
theorem Sound.file_unique (sound : fs.Sound names) (same : u.files.Perm fs.files)
    {f g : MountedFile} (left : f ∈ u.files) (right : g ∈ fs.files) (named : f.name = g.name) :
    f = g :=
  List.inj_on_of_nodup_map sound.mounts (same.mem_iff.mp left) right named

/-- The reader's limits. -/
structure Within (fs : Files) (names : Int32 → Option Bytes) (u : Files) : Prop where
  few : fs.handles.length ≤ 65536
  short : ∀ fd name, names fd = some name → name.length < 4096
  inside : u.linuxAnswers = true ∨
    ∀ h ∈ fs.handles, ∀ f, fs.files[h.file]? = some f → h.pos ≤ f.len

theorem Sound.within (sound : fs.Sound names) (same : u.files.Perm fs.files)
    (survives : fs.Survives u) : fs.Within names u := by
  obtain ⟨bytes, u', -, loaded, sight, -⟩ := survives
  obtain ⟨files, few, from_⟩ := Files.loadHandles_loaded loaded
  -- each descriptor of the one is a descriptor of the other, made from a record
  have back : ∀ h ∈ fs.handles, ∀ f, fs.files[h.file]? = some f → ∃ h' ∈ u'.handles, h'.fd = h.fd ∧
      ∃ r : HandleRecord, r.name.length < 4096 ∧ f.name = r.name ∧
        h.pos = if r.pos < f.len ∨ u.linuxAnswers = true then r.pos else f.len := by
    intro h member f at_
    have seen := sight h.fd
    obtain ⟨g, there, named⟩ := sound.file h member
    rw [at_] at there
    cases there
    rw [sound.sight.mpr ⟨h, member, rfl, rfl, named⟩] at seen
    obtain ⟨⟨h', f'⟩, opened, both⟩ := Option.map_eq_some_iff.mp seen
    obtain ⟨name, pos⟩ := Prod.mk.inj both
    unfold Files.opened at opened
    cases found : u'.handleByFd h.fd with
    | none => rw [found] at opened; cases opened
    | some k =>
      rw [found] at opened
      obtain ⟨q, at', pair⟩ := Option.map_eq_some_iff.mp opened
      cases pair
      have among := List.mem_of_find?_eq_some found
      have fd : h'.fd = h.fd := by simpa using List.find?_some found
      obtain ⟨r, short, made⟩ := from_ h' among
      obtain ⟨p, here, rname, -, rpos⟩ := Files.handleOf_eq made
      rw [files, here] at at'
      cases at'
      have one : f' = f := sound.file_unique same (List.mem_of_getElem? here)
        (List.mem_of_getElem? at_) name
      subst one
      exact ⟨h', among, fd, r, short, rname, pos.symm.trans rpos⟩
  have file : ∀ h ∈ fs.handles, ∃ f, fs.files[h.file]? = some f := fun h member => by
    obtain ⟨f, at_, -⟩ := sound.file h member
    exact ⟨f, at_⟩
  refine ⟨?_, fun fd name named => ?_, ?_⟩
  · have inside : fs.handles.map OpenHandle.fd ⊆ u'.handles.map OpenHandle.fd := by
      intro fd member
      obtain ⟨h, among, rfl⟩ := List.mem_map.mp member
      obtain ⟨f, at_⟩ := file h among
      obtain ⟨h', there, same, -⟩ := back h among f at_
      exact List.mem_map.mpr ⟨h', there, same⟩
    have shorter := (List.subperm_of_subset sound.fds inside).length_le
    rw [List.length_map, List.length_map] at shorter
    exact Nat.le_trans shorter few
  · by_contra long
    have none_ : ∀ h ∈ fs.handles, h.fd ≠ fd := by
      rintro h member rfl
      obtain ⟨f, at_, called⟩ := sound.file h member
      obtain ⟨-, -, -, r, short, rname, -⟩ := back h member f at_
      rw [named] at called
      rw [Option.some.inj called, rname] at long
      exact long short
    rw [sound.shut fd none_] at named
    cases named
  · cases answers : u.linuxAnswers with
    | true => exact .inl rfl
    | false =>
      refine .inr fun h member f at_ => ?_
      obtain ⟨-, -, -, r, -, -, pos⟩ := back h member f at_
      rw [pos, answers]
      simp only [Bool.false_eq_true, or_false]
      split
      · rename_i less
        exact UInt64.le_of_lt less
      · exact UInt64.le_refl _

/-- A record's handle, where the same files are mounted. -/
theorem Sound.handleOf (sound : fs.Sound names) (same : u.files.Perm fs.files)
    {f : MountedFile} (member : f ∈ fs.files) (fd : Int32) (pos : UInt64) :
    ∃ h, u.handleOf ⟨fd, pos, f.name⟩ = some h ∧ h.fd = fd ∧
      (u.linuxAnswers = true ∨ pos ≤ f.len → h.pos = pos) := by
  have there := same.mem_iff.mpr member
  cases found : u.byName f.name with
  | none =>
    have none_ := List.find?_eq_none.mp found f there
    simp at none_
  | some g =>
    have named : g.name = f.name := by simpa using List.find?_some found
    have one : g = f :=
      sound.file_unique same (List.mem_of_find?_eq_some found) member named
    subst one
    refine ⟨_, by rw [Files.handleOf, found]; rfl, rfl, fun inside => ?_⟩
    show (if pos < g.len ∨ u.linuxAnswers = true then pos else g.len) = pos
    split
    · rfl
    · rename_i past
      obtain ⟨past, strict⟩ := not_or.mp past
      have within := inside.resolve_left strict
      exact UInt64.le_antisymm (UInt64.not_lt.mp past) within

theorem Sound.survives (sound : fs.Sound names) (same : u.files.Perm fs.files)
    (within : fs.Within names u) : fs.Survives u := by
  obtain ⟨few, short, inside⟩ := within
  obtain ⟨sorted, mem⟩ := sound.records
  have telling : Telling names := fun fd name named => by
    have limit := short fd name named
    omega
  have fits : fs.Fits := by
    refine ⟨few, fun r member => ?_⟩
    obtain ⟨h, -, -, -, named⟩ := (mem r).mp member
    exact short h.fd r.name named
  have made : ∀ r ∈ fs.records, ∃ h, u.handleOf r = some h ∧ h.fd = r.fd ∧ h.pos = r.pos := by
    intro r member
    obtain ⟨k, among, fd, pos, named⟩ := (mem r).mp member
    obtain ⟨f, at_, called⟩ := sound.file k among
    have name : r.name = f.name := Option.some.inj (named.symm.trans called)
    obtain ⟨h, made, hfd, hpos⟩ :=
      sound.handleOf same (List.mem_of_getElem? at_) r.fd r.pos
    refine ⟨h, ?_, hfd, hpos (inside.imp_right fun all => ?_)⟩
    · rw [← name] at made
      exact made
    · rw [pos]
      exact all k among f at_
  obtain ⟨handles, loaded⟩ := @loadRecords_some u _ fun r member =>
    (made r member).imp fun _ => And.left
  obtain ⟨fds, left, right⟩ := loadRecords_mem loaded
  have mounts : (u.files.map MountedFile.name).Nodup :=
    ((same.map MountedFile.name).nodup_iff).mpr sound.mounts
  have text : ∀ f ∈ u.files, 0 ∉ f.name := fun f member => sound.text f (same.mem_iff.mp member)
  have after : Sound { u with handles } names := sound.loaded mounts text loaded
  have sight : ∀ fd, Files.sight { u with handles } fd = fs.sight fd := by
    refine fun fd => Option.ext fun ⟨name, pos⟩ => ?_
    rw [after.sight]
    constructor
    · rintro ⟨h, member, rfl, rfl, named⟩
      obtain ⟨r, among, from_⟩ := left h member
      obtain ⟨k, kept, kfd, kpos⟩ := made r among
      cases from_.symm.trans kept
      have seen := sound.mem_records.mp among
      obtain ⟨-, -, -, -, called⟩ := sound.sight.mp seen
      rw [← kfd, named] at called
      rw [kfd, kpos, seen, Option.some.inj called]
    · intro seen
      have among : ⟨fd, pos, name⟩ ∈ fs.records := sound.mem_records.mpr seen
      obtain ⟨-, -, -, -, named⟩ := sound.sight.mp seen
      obtain ⟨k, there, to_⟩ := right _ among
      obtain ⟨q, kept, qfd, qpos⟩ := made _ among
      cases to_.symm.trans kept
      exact ⟨k, there, qfd, qpos, named⟩
  have records : Files.records { u with handles } = fs.records :=
    Sorted.ext after.records.1 sorted fun r => by rw [after.mem_records, sound.mem_records, sight]
  have count : handles.length = fs.handles.length := by
    have lengths := congrArg List.length fds
    rwa [List.length_map, List.length_map, records_length] at lengths
  refine ⟨_, _, sound.saveHandles, ?_, sight, ?_⟩
  · have answer := sound.loadHandles telling sound.saveHandles u []
    rw [List.append_nil, if_pos fits, loaded] at answer
    exact answer
  · rw [after.saveHandles, records]
    show some (encode32 (UInt32.ofNat handles.length) ++ _) = _
    rw [count]

end Files

/-- A table of a run survives a state exactly when it is within the reader's limits. -/
theorem FileRun.survives_iff (run : FileRun (fun fs step => step.Fits fs) fs names)
    (same : u.files.Perm fs.files) : fs.Survives u ↔ fs.Within names u :=
  ⟨run.kept.sound.within same, run.kept.sound.survives same⟩

end Survives

/-- The two descriptors, where the files were mounted in another order. -/
def Files.otherOrder : Files := { new with files := openTwice.files.reverse }

theorem FileRun.survives_otherOrder : ∃ names,
    FileRun (fun fs step => step.Fits fs) Files.openTwice names ∧
      Files.otherOrder.files.Perm Files.openTwice.files ∧
      Files.openTwice.Survives Files.otherOrder := by
  obtain ⟨names, run⟩ := openTwice _ fun _ _ fits => fits
  have same : Files.otherOrder.files.Perm Files.openTwice.files := List.reverse_perm _
  refine ⟨names, run, same, (survives_iff run same).mpr
    ⟨by decide, fun fd name named => ?_, .inr ?_⟩⟩
  · have short : ∀ f ∈ Files.openTwice.files, f.name.length < 4096 := by decide
    rw [← run.kept.sound.means fd] at named
    obtain ⟨o, opened, rfl⟩ := Option.map_eq_some_iff.mp named
    obtain ⟨-, -, at_⟩ := run.kept.sound.opened.mp opened
    exact short _ (List.mem_of_getElem? at_)
  · decide

/-- One file, mounted and open. -/
def Files.openOne (name : Bytes) : Files := ((new.mount name [] false).2.open_ name 0).2

theorem Files.openOne_opened {name : Bytes} (fresh : new.byName name = none) :
    (openOne name).opened 3 = some (⟨3, 3, 0⟩, ⟨name, .regular, [], 0, false⟩) := by
  have last : (new.mount name [] false).2 =
      { new with files := new.files ++ [⟨name, .regular, [], 0, false⟩] } := by
    rw [mount, fresh]
    rfl
  have found : byName { new with
      files := new.files ++ [⟨name, .regular, [], 0, false⟩] } name =
      some ⟨name, .regular, [], 0, false⟩ := by
    show List.find? _ (new.files ++ _) = _
    rw [List.find?_append, show List.find? _ new.files = none from fresh]
    simp
  have index : fileIndex { new with
      files := new.files ++ [⟨name, .regular, [], 0, false⟩] } name = 3 := by
    have away := List.find?_eq_none.mp fresh
    show List.findIdx _ (new.files ++ _) = 3
    rw [List.findIdx_append, if_neg]
    · simp
      rfl
    · rw [List.findIdx_lt_length]
      rintro ⟨f, member, named⟩
      exact away f member named
  rw [openOne, last, open_, found]
  dsimp only
  rw [index]
  rfl

theorem FileRun.openOne {name : Bytes} (clean : 0 ∉ name) (fresh : Files.new.byName name = none) :
    ∃ names, FileRun (fun fs step => step.Fits fs) (Files.openOne name) names ∧
      names 3 = some name := by
  have run : FileRun (fun fs step => step.Fits fs) _ _ := .new false
  obtain ⟨_, run⟩ := run.step (.mount name [] false) clean trivial
  have few : (Files.new.mount name [] false).2.handles.length < 2 ^ 31 := by
    rw [Files.mount, fresh]
    show 3 < 2 ^ 31
    decide
  obtain ⟨names, run⟩ : ∃ names, FileRun (fun fs step => step.Fits fs) (Files.openOne name) names :=
    run.step (.open_ name 0) trivial few
  have named := run.kept.sound.means 3
  rw [Files.openOne_opened fresh] at named
  exact ⟨names, run, named.symm⟩

/-- A file with a name of 4096 bytes can be mounted and opened, and the table can be saved: it
cannot be loaded where it was saved. -/
theorem FileRun.longName_lost : ∃ name names, name = List.replicate 4096 (0x61 : UInt8) ∧
    FileRun (fun fs step => step.Fits fs) (Files.openOne name) names ∧ names 3 = some name ∧
      (Files.openOne name).saveHandles.isSome = true ∧
      ¬ (Files.openOne name).Survives (Files.openOne name) := by
  obtain ⟨name, long⟩ : ∃ name, name = List.replicate 4096 (0x61 : UInt8) := ⟨_, rfl⟩
  have byte : ∀ b ∈ name, b = 0x61 := fun b member => by
    rw [long] at member
    exact List.eq_of_mem_replicate member
  have length : name.length = 4096 := by rw [long, List.length_replicate]
  have fresh : Files.new.byName name = none := by
    refine List.find?_eq_none.mpr fun f member same => ?_
    have short : ∀ f ∈ Files.new.files, f.name.length < 4096 := by decide
    have less := short f member
    rw [eq_of_beq same, length] at less
    exact absurd less (by decide)
  obtain ⟨names, run, named⟩ :=
    openOne (fun zero => absurd (byte 0 zero) (by decide)) fresh
  refine ⟨name, names, long, run, named, by rw [run.kept.sound.saveHandles]; rfl, fun survives =>
    ?_⟩
  have short := (run.kept.sound.within (List.Perm.refl _) survives).short 3 name named
  rw [length] at short
  exact absurd short (by decide)

end MiniBox
