import MiniKvm.Lib.FileTree
import MiniKvm.Source.VmFiles

/-!
# The paths of a VM

The part of mini_kvm_run that is about files (commands/run.c, ipc/ipc.c, core/filesystem.c), over a
whole file tree and for any name: init_filesystem, the bind of mini_kvm_ipc_create_socket and the final
rmrf. No call fails for want of rights or room, unless remove does.
-/
namespace MiniKvm.Source.VmPaths
open Lib VmFiles

abbrev Name := List Char

/-- What stands between the slashes of a path. -/
def components : List Char → List Name
  | [] => [[]]
  | c :: rest =>
    if c = '/' then [] :: components rest
    else
      match components rest with
      | [] => [[c]]
      | first :: others => (c :: first) :: others

/-- Slashes in a row count as one, and those at the end do not count. -/
def stepOf (component : Name) : Option (Step Name) :=
  if component = [] then none
  else if component = ['.'] then some .here
  else if component = ['.', '.'] then some .up
  else some (.down component)

def steps (path : List Char) : List (Step Name) := (components path).filterMap stepOf

/-- `MINI_KVM_FS_ROOT_PATH`. -/
def rootPath : List Char := ['/', 't', 'm', 'p', '/', 'm', 'i', 'n', 'i', '_', 'k', 'v', 'm']

/-- `kvm->fs_path`. -/
def fsPath (name : Name) : List Char := rootPath ++ '/' :: name

def pidfileName (name : Name) : List Char := name ++ ['.', 'p', 'i', 'd']

def sockPath (name : Name) : List Char :=
  fsPath name ++ '/' :: (name ++ ['.', 's', 'o', 'c', 'k'])

/-- Where a path starts that is given next to the descriptor of a directory. -/
def startAt (dir : Option (List Name)) (path : List Char) : Option (List Name) :=
  if path.head? = some '/' then some [] else dir

theorem components_ne_nil (path : List Char) : components path ≠ [] := by
  cases path with
  | nil => simp [components]
  | cons c rest =>
    simp only [components]
    split
    · simp
    · split <;> simp

theorem components_append (a b : List Char) :
    components (a ++ '/' :: b) = components a ++ components b := by
  induction a with
  | nil => simp [components]
  | cons c a ih =>
    by_cases slash : c = '/'
    · simp [components, slash, ih]
    · simp only [components, List.cons_append, if_neg slash, ih]
      cases first : components a with
      | nil => exact absurd first (components_ne_nil a)
      | cons _ _ => rfl

theorem components_of_no_slash {name : Name} (noSlash : '/' ∉ name) : components name = [name] := by
  induction name with
  | nil => rfl
  | cons c rest ih =>
    obtain ⟨here, later⟩ := not_or.mp (mt List.mem_cons.mpr noSlash)
    simp only [components, if_neg (Ne.symm here), ih later]

theorem steps_fsPath (name : Name) : steps (fsPath name) = steps rootPath ++ steps name := by
  rw [steps, fsPath, components_append, List.filterMap_append]
  rfl

/-- A name of one component, other than `.` and `..`. -/
structure Plain (name : Name) : Prop where
  nonempty : name ≠ []
  noSlash : '/' ∉ name
  notHere : name ≠ ['.']
  notUp : name ≠ ['.', '.']

theorem steps_of_plain {name : Name} (plain : Plain name) : steps name = [.down name] := by
  simp [steps, components_of_no_slash plain.noSlash, stepOf, plain.nonempty, plain.notHere,
    plain.notUp]

theorem startAt_of_plain {name : Name} (plain : Plain name) (dir : Option (List Name)) :
    startAt dir name = dir := by
  refine if_neg fun slash => plain.noSlash ?_
  exact List.mem_of_mem_head? (Option.mem_def.mpr slash)

theorem plain_pidfileName {name : Name} (plain : Plain name) : Plain (pidfileName name) where
  nonempty := by simp [pidfileName]
  noSlash := by simp [pidfileName, plain.noSlash]
  notHere same := by simpa [pidfileName] using congrArg List.length same
  notUp same := by simpa [pidfileName] using congrArg List.length same

/-! ## init_filesystem -/

/-- What it returns and leaves. `kill` says for which pids `kill(pid, 0)` returns 0. -/
def initFilesystem (kill : Int32 → Bool) (self : Int32) (name : Name) (t : FileTree Name) :
    Except FsError Unit × FileTree Name :=
  let t := if t.stat [] (steps rootPath) = none then (t.make .dir [] (steps rootPath)).getD t else t
  let fsExists : Bool := t.stat [] (steps (fsPath name)) ≠ none
  let rootDir := t.openDir [] (steps rootPath)
  let t := ((startAt rootDir name).bind fun dir => t.make .dir dir (steps name)).getD t
  match (startAt rootDir name).bind fun dir => t.openDir dir (steps name) with
  | none => (.error .noDirectory, t)
  | some fsDir =>
    let path := steps (pidfileName name)
    let pidfile := (startAt (some fsDir) (pidfileName name)).bind fun dir => t.openRead dir path
    let running : Bool := match pidfile with
      | some content => fsExists && kill (readInt 0 content)
      | none => false
    if running then (.error .alreadyRunning, t)
    else
      match (startAt (some fsDir) (pidfileName name)).bind fun dir =>
          t.writeFile (intBytes self) dir path with
      | none => (.error .noPidfile, t)
      | some t => (.ok (), t)

/-! ## mini_kvm_run -/

/-- Where a run is that comes to its rmrf: the path, which is NULL where init_filesystem was passed by,
and the file tree. -/
structure AtRmrf where
  path : Option (List Char)
  tree : FileTree Name

/-- Alone with the file tree. Without option -n there is no rmrf. What run_main_loop returns is not
looked at, so a socket that cannot be bound leads to rmrf as well. -/
def miniKvmRun (kill : Int32 → Bool) (self : Int32) (name : Option Name) (t : FileTree Name) :
    Option AtRmrf :=
  match name with
  | none => none
  | some [] => some ⟨none, t⟩
  | some name =>
    match initFilesystem kill self name t with
    | (.error _, _) => none
    | (.ok (), t) => some ⟨some (fsPath name), (t.make .sock [] (steps (sockPath name))).getD t⟩

/-- nftw strips the slashes at the end of its path. -/
def rmrf (busy : List Name → Bool) (path : List Char) (t : FileTree Name) : FileTree Name :=
  t.nftwRemove busy [] (steps path)

/-- The path of the final rmrf of a run with this name. -/
def rmrfPath : Name → Option (List Char)
  | [] => none
  | name => some (fsPath name)

end MiniKvm.Source.VmPaths
