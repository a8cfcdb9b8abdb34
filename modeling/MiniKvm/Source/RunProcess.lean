import MiniKvm.Lib.Lts
import MiniKvm.Source.VmFiles

/-!
# mini_kvm_run by its system calls

Processes of mini_kvm_run with one plain name, and the directory of that name: init_filesystem, the bind
of mini_kvm_ipc_create_socket and the final rmrf (commands/run.c, ipc/ipc.c, core/filesystem.c), a step
for each system call that reads or changes what the processes share. A process can be killed between
any two steps. Files and directories are known by their inodes, so a descriptor can outlive its name.
-/
namespace MiniKvm.Source.RunProcess
open Lib VmFiles

/-! ## The directory of the name -/

/-- `MINI_KVM_FS_ROOT_PATH/name`: its inode, that of the pidfile, and whether the socket is there. -/
structure Dir where
  ino : Nat
  pidfile : Option Nat
  sock : Bool
  deriving DecidableEq, Repr

/-- `root`: MINI_KVM_FS_ROOT_PATH is there, which nobody removes. `fresh` is the next inode. -/
structure Fs where
  root : Bool
  dir : Option Dir
  content : Nat → List UInt8
  fresh : Nat

def Fs.mkdirat (fs : Fs) : Fs :=
  match fs.dir with
  | some _ => fs
  | none => { fs with dir := some ⟨fs.fresh, none, false⟩, fresh := fs.fresh + 1 }

/-- openat(fs_fd, pidfile_name, O_RDONLY); nothing is in a directory that was removed. -/
def Fs.openPidfile (fs : Fs) (fsFd : Nat) : Option Nat :=
  match fs.dir with
  | some d => if d.ino = fsFd then d.pidfile else none
  | none => none

/-- openat(fs_fd, pidfile_name, O_CREAT | O_TRUNC | O_WRONLY). -/
def Fs.createPidfile (fs : Fs) (fsFd : Nat) : Option (Fs × Nat) :=
  match fs.dir with
  | none => none
  | some d =>
    if d.ino = fsFd then
      let file := d.pidfile.getD fs.fresh
      some ({ fs with
        dir := some { d with pidfile := some file }
        content := Function.update fs.content file []
        fresh := fs.fresh + 1 }, file)
    else none

/-- The write of a pid at the start of a file. -/
def Fs.writePid (fs : Fs) (file : Nat) (pid : Int32) : Fs :=
  { fs with
    content := Function.update fs.content file (intBytes pid ++ (fs.content file).drop 4) }

/-- EADDRINUSE where the path is there, ENOENT where the directory is not. -/
def Fs.bind (fs : Fs) : Option Fs :=
  match fs.dir with
  | none => none
  | some d => if d.sock then none else some { fs with dir := some { d with sock := true } }

inductive DirEntry where
  | pidfile | sock
  deriving DecidableEq, Repr

/-- What readdir finds through a descriptor, in either order. -/
def Fs.readdir (fs : Fs) (fd : Nat) (pidfileFirst : Bool) : List DirEntry :=
  match fs.dir with
  | none => []
  | some d =>
    if d.ino = fd then
      let pidfile := if d.pidfile.isSome then [DirEntry.pidfile] else []
      let sock := if d.sock then [DirEntry.sock] else []
      if pidfileFirst then pidfile ++ sock else sock ++ pidfile
    else []

/-- remove of an entry, by its path. -/
def Fs.unlink (fs : Fs) (entry : DirEntry) : Option Fs :=
  match fs.dir, entry with
  | none, _ => none
  | some d, .pidfile =>
    if d.pidfile.isSome then some { fs with dir := some { d with pidfile := none } } else none
  | some d, .sock =>
    if d.sock then some { fs with dir := some { d with sock := false } } else none

/-- remove of the directory, which must be empty. -/
def Fs.rmdir (fs : Fs) : Fs :=
  match fs.dir with
  | some ⟨_, none, false⟩ => { fs with dir := none }
  | _ => fs

/-! ### What they change -/

section Operations

variable {fs fs' : Fs}

theorem Fs.mkdirat_of_dir {d : Dir} (found : fs.dir = some d) : fs.mkdirat = fs := by
  simp [Fs.mkdirat, found]

theorem Fs.openPidfile_spec {fsFd file : Nat} (opened : fs.openPidfile fsFd = some file) :
    ∃ d, fs.dir = some d ∧ d.ino = fsFd ∧ d.pidfile = some file := by
  unfold Fs.openPidfile at opened
  split at opened
  · next d found =>
    split at opened
    · next ino => exact ⟨d, found, ino, opened⟩
    · cases opened
  · cases opened

theorem Fs.createPidfile_spec {fsFd file : Nat}
    (created : fs.createPidfile fsFd = some (fs', file)) :
    ∃ d, fs.dir = some d ∧ d.ino = fsFd ∧ file = d.pidfile.getD fs.fresh ∧
      fs'.dir = some { d with pidfile := some file } ∧
      fs'.content = Function.update fs.content file [] := by
  unfold Fs.createPidfile at created
  split at created
  · cases created
  · next d found =>
    split at created
    · next ino =>
      cases created
      exact ⟨d, found, ino, rfl, rfl, rfl⟩
    · cases created

theorem Fs.bind_spec (bound : fs.bind = some fs') :
    ∃ d, fs.dir = some d ∧ d.sock = false ∧
      fs' = { fs with dir := some { d with sock := true } } := by
  unfold Fs.bind at bound
  split at bound
  · cases bound
  · next d found =>
    split at bound
    · cases bound
    · next free =>
      cases bound
      exact ⟨d, found, by simpa using free, rfl⟩

/-- Removed names leave the files as they are. -/
theorem Fs.unlink_content {entry : DirEntry} (removed : fs.unlink entry = some fs') :
    fs'.content = fs.content := by
  unfold Fs.unlink at removed
  split at removed
  · cases removed
  · split at removed <;> cases removed
    rfl
  · split at removed <;> cases removed
    rfl

end Operations

/-! ## A process -/

/-- The system call that comes next. -/
inductive Pc where
  /-- stat(MINI_KVM_FS_ROOT_PATH), the first one. -/
  | idle
  | mkdirRoot
  | statDir
  | mkdirat (fsExists : Bool)
  | openDir (fsExists : Bool)
  | openPidfile (fsFd : Nat)
  | read (fsFd pidFile : Nat)
  | kill (fsFd : Nat) (pid : Int32)
  | create (fsFd : Nat)
  | write (pidFile : Nat)
  | bind
  /-- run_main_loop, behind the bind. -/
  | serving
  /-- The final rmrf: nftw opens the directory, reads it, and removes its entries and then itself. -/
  | opendir
  | readdir (fd : Nat)
  | remove (entries : List DirEntry)
  /-- On the way to the end, `passed` after init_filesystem has succeeded. -/
  | leaving (passed : Bool)
  | exited
  | killed
  deriving DecidableEq, Repr

def Pc.alive : Pc → Bool
  | .idle | .exited | .killed => false
  | _ => true

/-- Past init_filesystem, and alive. -/
def Pc.past : Pc → Bool
  | .bind | .serving | .opendir | .readdir _ | .remove _ => true
  | .leaving passed => passed
  | _ => false

/-- What a step depends on besides the directory: for which pids `kill(pid, 0)` returns 0, and the
order of readdir. -/
structure Env where
  kill : Int32 → Bool
  pidfileFirst : Bool

/-- The next system call of a process with pid `self`; `none` after its end. -/
def procStep (env : Env) (self : Int32) (fs : Fs) : Pc → Option (Fs × Pc)
  | .idle => some (fs, if fs.root then .statDir else .mkdirRoot)
  | .mkdirRoot => some ({ fs with root := true }, .statDir)
  | .statDir => some (fs, .mkdirat fs.dir.isSome)
  | .mkdirat fsExists => some (fs.mkdirat, .openDir fsExists)
  | .openDir fsExists =>
    match fs.dir with
    | none => some (fs, .leaving false)
    | some d => some (fs, if fsExists then .openPidfile d.ino else .create d.ino)
  | .openPidfile fsFd =>
    match fs.openPidfile fsFd with
    | none => some (fs, .create fsFd)
    | some file => some (fs, .read fsFd file)
  | .read fsFd file => some (fs, .kill fsFd (readInt 0 (fs.content file)))
  | .kill fsFd pid => some (fs, if env.kill pid then .leaving false else .create fsFd)
  | .create fsFd =>
    match fs.createPidfile fsFd with
    | none => some (fs, .leaving false)
    | some (fs, file) => some (fs, .write file)
  | .write file => some (fs.writePid file self, .bind)
  | .bind =>
    match fs.bind with
    | none => some (fs, .opendir)
    | some fs => some (fs, .serving)
  | .serving => some (fs, .opendir)
  | .opendir =>
    match fs.dir with
    | none => some (fs, .leaving true)
    | some d => some (fs, .readdir d.ino)
  | .readdir fd => some (fs, .remove (fs.readdir fd env.pidfileFirst))
  | .remove [] => some (fs.rmdir, .leaving true)
  | .remove (entry :: rest) =>
    match fs.unlink entry with
    | none => some (fs, .leaving true)
    | some fs => some (fs, .remove rest)
  | .leaving _ => some (fs, .exited)
  | .exited | .killed => none

/-- What a step changes, and where the process is then. -/
inductive Change (own : Int32) (fs : Fs) : Fs → Pc → Prop where
  | same (pc : Pc) : Change own fs fs pc
  | root : Change own fs { fs with root := true } .statDir
  | mkdirat (fsExists : Bool) : Change own fs fs.mkdirat (.openDir fsExists)
  | create {fsFd file : Nat} {fs' : Fs} (made : fs.createPidfile fsFd = some (fs', file)) :
    Change own fs fs' (.write file)
  | write (file : Nat) : Change own fs (fs.writePid file own) .bind
  | bind {fs' : Fs} (bound : fs.bind = some fs') : Change own fs fs' .serving
  | unlink {entry : DirEntry} {fs' : Fs} (removed : fs.unlink entry = some fs')
    (rest : List DirEntry) : Change own fs fs' (.remove rest)
  | rmdir : Change own fs fs.rmdir (.leaving true)

theorem procStep_change {env : Env} {own : Int32} {fs fs' : Fs} {pc pc' : Pc}
    (moved : procStep env own fs pc = some (fs', pc')) : Change own fs fs' pc' := by
  cases pc with
  | mkdirRoot =>
    cases moved
    exact .root
  | mkdirat fsExists =>
    cases moved
    exact .mkdirat fsExists
  | create fsFd =>
    simp only [procStep] at moved
    split at moved
    · cases moved
      exact .same _
    · next made =>
      cases moved
      exact .create made
  | write file =>
    cases moved
    exact .write file
  | bind =>
    simp only [procStep] at moved
    split at moved
    · cases moved
      exact .same _
    · next bound =>
      cases moved
      exact .bind bound
  | remove entries =>
    cases entries with
    | nil =>
      cases moved
      exact .rmdir
    | cons entry rest =>
      simp only [procStep] at moved
      split at moved
      · cases moved
        exact .same _
      · next removed =>
        cases moved
        exact .unlink removed rest
  | openDir fsExists =>
    simp only [procStep] at moved
    split at moved <;> cases moved <;> exact .same _
  | openPidfile fsFd =>
    simp only [procStep] at moved
    split at moved <;> cases moved <;> exact .same _
  | opendir =>
    simp only [procStep] at moved
    split at moved <;> cases moved <;> exact .same _
  | exited => cases moved
  | killed => cases moved
  | _ =>
    cases moved
    exact .same _

/-! ## A process alone -/

def Next (env : Env) (own : Int32) (s t : Fs × Pc) : Prop := procStep env own s.1 s.2 = some t

/-- The directory as init_filesystem sees it from outside of its steps. -/
def Fs.view (fs : Fs) : VmDir :=
  match fs.dir with
  | none => .missing
  | some d => .present (d.pidfile.map fs.content)

def Fs.sockThere (fs : Fs) : Bool :=
  match fs.dir with
  | none => false
  | some d => d.sock

section Alone

variable {env : Env} {own : Int32} {fs : Fs} {d : Dir}

theorem next_unique : Relator.RightUnique (Next env own) := by
  intro s t u first second
  exact Option.some.inj (first.symm.trans second)

theorem next_root : Relation.ReflTransGen (Next env own) (fs, .idle)
    ({ fs with root := true }, .statDir) := by
  obtain ⟨root, dir, content, fresh⟩ := fs
  cases root with
  | true => exact .single rfl
  | false =>
    have stat : Next env own (⟨false, dir, content, fresh⟩, .idle)
        (⟨false, dir, content, fresh⟩, .mkdirRoot) := rfl
    have mkdir : Next env own (⟨false, dir, content, fresh⟩, .mkdirRoot)
        (⟨true, dir, content, fresh⟩, .statDir) := rfl
    exact .head stat (.single mkdir)

/-- In a directory that is there, to the look for a pidfile. -/
theorem next_openPidfile (found : fs.dir = some d) :
    Relation.ReflTransGen (Next env own) (fs, .statDir) (fs, .openPidfile d.ino) := by
  have stat : Next env own (fs, .statDir) (fs, .mkdirat true) := by
    simp [Next, procStep, found]
  have mkdir : Next env own (fs, .mkdirat true) (fs, .openDir true) := by
    simp [Next, procStep, Fs.mkdirat, found]
  have opens : Next env own (fs, .openDir true) (fs, .openPidfile d.ino) := by
    simp [Next, procStep, found]
  exact .head stat (.head mkdir (.single opens))

/-- And from there to the test of the pid, where there is one. -/
theorem next_kill {file : Nat} (found : fs.dir = some d) (name : d.pidfile = some file) :
    Relation.ReflTransGen (Next env own) (fs, .statDir)
      (fs, .kill d.ino (readInt 0 (fs.content file))) := by
  have opens : Next env own (fs, .openPidfile d.ino) (fs, .read d.ino file) := by
    simp [Next, procStep, Fs.openPidfile, found, name]
  have reads : Next env own (fs, .read d.ino file)
      (fs, .kill d.ino (readInt 0 (fs.content file))) := rfl
  exact (next_openPidfile found).trans (.head opens (.single reads))

/-- From the creation of the pidfile to the end of init_filesystem. -/
theorem next_bind (found : fs.dir = some d) :
    ∃ fs', Relation.ReflTransGen (Next env own) (fs, .create d.ino) (fs', .bind) ∧
      fs'.view = .present (some (intBytes own)) ∧ fs'.sockThere = fs.sockThere := by
  have made : ∃ fs₁ f d₁, fs.createPidfile d.ino = some (fs₁, f) ∧ fs₁.dir = some d₁ ∧
      d₁.pidfile = some f ∧ fs₁.content f = [] ∧ d₁.sock = d.sock := by
    simp only [Fs.createPidfile, found, if_true]
    exact ⟨_, _, _, rfl, rfl, rfl, by simp, rfl⟩
  obtain ⟨fs₁, f, d₁, made, dir, name, empty, sock⟩ := made
  have create : Next env own (fs, .create d.ino) (fs₁, .write f) := by
    simp only [Next, procStep, made]
  refine ⟨fs₁.writePid f own, .head create (.single rfl), ?_, ?_⟩
  · simp [Fs.view, Fs.writePid, dir, name, empty]
  · simp [Fs.sockThere, Fs.writePid, dir, found, sock]

/-- Alone, the steps are those of init_filesystem as a function. -/
theorem next_initFilesystem (env : Env) (own : Int32) (fs : Fs) :
    match initFilesystem ⟨true, true⟩ env.kill own fs.view with
    | (.ok (), dir) => ∃ fs', Relation.ReflTransGen (Next env own) (fs, .statDir) (fs', .bind) ∧
        fs'.view = dir ∧ fs'.sockThere = fs.sockThere
    | (.error _, dir) =>
      Relation.ReflTransGen (Next env own) (fs, .statDir) (fs, .leaving false) ∧ fs.view = dir := by
  cases found : fs.dir with
  | none =>
    have made : fs.mkdirat.dir = some ⟨fs.fresh, none, false⟩ := by simp [Fs.mkdirat, found]
    have stat : Next env own (fs, .statDir) (fs, .mkdirat false) := by
      simp [Next, procStep, found]
    have mkdir : Next env own (fs, .mkdirat false) (fs.mkdirat, .openDir false) := rfl
    have opens : Next env own (fs.mkdirat, .openDir false) (fs.mkdirat, .create fs.fresh) := by
      simp [Next, procStep, made]
    obtain ⟨fs', binds, view, sock⟩ := next_bind made
    have before : fs.view = .missing := by simp [Fs.view, found]
    rw [before]
    refine ⟨fs', .head stat (.head mkdir (.head opens binds)), view, sock.trans ?_⟩
    simp [Fs.sockThere, made, found]
  | some d =>
    obtain ⟨fs', binds, view, sock⟩ : ∃ fs',
        Relation.ReflTransGen (Next env own) (fs, .create d.ino) (fs', .bind) ∧
          fs'.view = .present (some (intBytes own)) ∧ fs'.sockThere = fs.sockThere :=
      next_bind found
    cases name : d.pidfile with
    | none =>
      have before : fs.view = .present none := by simp [Fs.view, found, name]
      have decides : Next env own (fs, .openPidfile d.ino) (fs, .create d.ino) := by
        simp [Next, procStep, Fs.openPidfile, found, name]
      rw [before]
      exact ⟨fs', (next_openPidfile found).trans (.head decides binds), view, sock⟩
    | some file =>
      have before : fs.view = .present (some (fs.content file)) := by
        simp [Fs.view, found, name]
      rw [before]
      simp only [initFilesystem]
      cases alive : env.kill (readInt 0 (fs.content file)) with
      | true =>
        have refuses : Next env own (fs, .kill d.ino (readInt 0 (fs.content file)))
            (fs, .leaving false) := by
          simp [Next, procStep, alive]
        exact ⟨(next_kill found name).tail refuses, rfl⟩
      | false =>
        have decides : Next env own (fs, .kill d.ino (readInt 0 (fs.content file)))
            (fs, .create d.ino) := by
          simp [Next, procStep, alive]
        exact ⟨fs', (next_kill found name).trans (.head decides binds), view, sock⟩

end Alone

/-! ## The processes together -/

structure World (ι : Type*) where
  fs : Fs
  pc : ι → Pc

inductive Event (ι : Type*) where
  /-- A process goes on; `others` are the pids in use by processes of other programs. -/
  | step (i : ι) (others : Int32 → Bool) (pidfileFirst : Bool)
  | kill (i : ι)

section System

variable {ι : Type*} [DecidableEq ι] [Fintype ι] (pid : ι → Int32)

/-- Pid 0 stands for the process group of the caller. -/
def World.kill (w : World ι) (others : Int32 → Bool) (p : Int32) : Bool :=
  decide (p = 0 ∨ ∃ i, (w.pc i).alive = true ∧ pid i = p) || others p

def step (w : World ι) : Event ι → Option (World ι)
  | .step i others pidfileFirst =>
    (procStep ⟨w.kill pid others, pidfileFirst⟩ (pid i) w.fs (w.pc i)).map fun (fs, pc) =>
      ⟨fs, Function.update w.pc i pc⟩
  | .kill i =>
    if (w.pc i).alive then some { w with pc := Function.update w.pc i .killed } else none

def system : Lts.System (World ι) (Event ι) Empty where
  step := step pid
  label _ _ := none

/-- Nobody has started. -/
def init (fs : Fs) : World ι := ⟨fs, fun _ => .idle⟩

end System

end MiniKvm.Source.RunProcess
