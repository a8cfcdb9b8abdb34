import MiniKvm.Source.RunResources
import MiniKvm.Source.VmPaths

/-!
# The addresses of the sockets

The two sprintf calls on `sun_path` (ipc/ipc.c), in mini_kvm_run with the fields of its Kvm and in a
client with the name on its command line.
-/
namespace MiniKvm.Source.RunStages
open Lib.Resources RunArgs

/-- The bytes of `sun_path`. -/
def sunPathSize : Nat := 108

/-- init_filesystem sets `fs_path` before all else, and it is called where `name` is set. -/
def Kvm.fsPath (kvm : Kvm) : Option (List Char) := kvm.name.map VmPaths.fsPath

/-- `"%s/%s.sock"` in mini_kvm_ipc_create_socket; `none` where a string is NULL. -/
def Kvm.sunPath (kvm : Kvm) : Option (List Char) :=
  match kvm.fsPath, kvm.name with
  | some fsPath, some name => some (fsPath ++ '/' :: (name ++ ['.', 's', 'o', 'c', 'k']))
  | _, _ => none

/-- `"%s/%s/%s.sock"` in mini_kvm_ipc_connect. -/
def ipcConnectPath (name : List Char) : List Char :=
  VmPaths.rootPath ++ '/' :: (name ++ '/' :: (name ++ ['.', 's', 'o', 'c', 'k']))

theorem ipcConnectPath_eq (name : List Char) : ipcConnectPath name = VmPaths.sockPath name := by
  rw [ipcConnectPath, VmPaths.sockPath, VmPaths.fsPath, List.append_assoc, List.cons_append]

theorem ipcConnectPath_length (name : List Char) :
    (ipcConnectPath name).length = 2 * name.length + 20 := by
  simp only [ipcConnectPath, VmPaths.rootPath, List.length_append, List.length_cons, List.length_nil]
  omega

/-- The name can be read back from its first or its second place. -/
theorem ipcConnectPath_injective : Function.Injective ipcConnectPath := by
  intro a b same
  have lengths := congrArg List.length same
  simp only [ipcConnectPath_length] at lengths
  have rest := List.append_cancel_left same
  exact (List.append_inj (List.cons.inj rest).2 (by omega)).1

/-! ## The name of a run that makes its socket -/

/-- The run gets to mini_kvm_ipc_create_socket. -/
def Run.Reaches (r : Run) : Prop := ∃ ret, (Stage.createSocket, ret) ∈ r.proc.stages

/-- No socket has been made yet. -/
def Proc.Early (p : Proc) : Prop := ∀ ret, (Stage.createSocket, ret) ∉ p.stages

theorem Proc.Early.did {p : Proc} (early : p.Early) {stage : Stage} (other : stage ≠ .createSocket)
    (e : MiniKVMError) : (p.did stage e).Early := by
  intro ret member
  rcases List.mem_append.mp member with before | last
  · exact early ret before
  · exact other (congrArg Prod.fst (List.mem_singleton.mp last)).symm

theorem addVcpus_frame (calls : Nat → VcpuCalls) (count : Nat) {p : Proc} (early : p.Early) :
    (addVcpus calls count p).2.kvm.name = p.kvm.name ∧ (addVcpus calls count p).2.Early := by
  induction count generalizing p with
  | zero => exact ⟨rfl, early⟩
  | succ count ih =>
    obtain ⟨name, stages⟩ := addVcpu_frame (calls p.kvm.vcpus.length) p
    rw [addVcpus]
    generalize miniKvmAddVcpu (calls p.kvm.vcpus.length) p = r at name stages
    obtain ⟨e, q⟩ := r
    have early' (e : MiniKVMError) : (q.did .addVcpu e).Early := by
      refine Proc.Early.did ?_ (by decide) e
      rwa [Proc.Early, show q.stages = _ from stages]
    split
    · next made =>
      cases made
      obtain ⟨name', rest⟩ := ih (early' .success)
      exact ⟨name'.trans name, rest⟩
    · next made =>
      cases made
      exact ⟨name, early' _⟩

theorem initialise_frame (calls : RunCalls) (args : MiniKvmRunArgs) {p : Proc} (early : p.Early) :
    (initialise calls args p).2.kvm.name = p.kvm.name ∧ (initialise calls args p).2.Early := by
  have kept : (setupKvm calls.setup calls.intel (.ofNat args.memSize) p).2.kvm.name = p.kvm.name ∧
    (setupKvm calls.setup calls.intel (.ofNat args.memSize) p).2.stages = p.stages := ⟨rfl, rfl⟩
  unfold initialise
  generalize setupKvm calls.setup calls.intel (.ofNat args.memSize) p = r at kept
  obtain ⟨e, q⟩ := r
  obtain ⟨name, stages⟩ := kept
  have early' (e : MiniKVMError) : (q.did .setupKvm e).Early := by
    refine Proc.Early.did ?_ (by decide) e
    rwa [Proc.Early, show q.stages = _ from stages]
  split
  · next made =>
    cases made
    obtain ⟨name', rest⟩ := addVcpus_frame calls.vcpu args.vcpu (early' .success)
    generalize addVcpus calls.vcpu args.vcpu (q.did .setupKvm .success) = r at name' rest
    obtain ⟨e, q'⟩ := r
    have named : q'.kvm.name = p.kvm.name := name'.trans name
    split
    · next made =>
      cases made
      have paging : (q'.did .configurePaging calls.configurePaging).Early := rest.did (by decide) _
      dsimp only
      split
      · exact ⟨named, paging⟩
      · exact ⟨named, paging.did (by decide) calls.loadKernel⟩
    · next made =>
      cases made
      exact ⟨named, rest⟩
  · next made =>
    cases made
    exact ⟨name, early' _⟩

/-- What mini_kvm_run makes of the option for `kvm->name`. -/
def kvmName : Option (List Char) → Option (List Char)
  | none | some [] => none
  | some name => some name

theorem nameVm_name (fs : FsCalls) (name : Option (List Char)) {p : Proc}
    (unnamed : p.kvm.name = none) : (nameVm fs name p).2.kvm.name = kvmName name := by
  match name with
  | none | some [] => exact unnamed
  | some (c :: rest) => exact (initFilesystem_frame fs _).1

theorem runMainLoop_name (socket : SocketCalls) (start : MiniKVMError) (first : VMState)
    (rounds : List Round) (p : Proc) :
    (runMainLoop socket start first rounds p).2.kvm.name = p.kvm.name := by
  have kept := (createSocket_frame socket p).1
  unfold runMainLoop
  generalize miniKvmIpcCreateSocket socket p = r at kept
  obtain ⟨e, q⟩ := r
  split
  · next made =>
    cases made
    dsimp only
    split <;> exact kept
  · next made =>
    cases made
    exact kept

theorem serve_name (calls : RunCalls) (args : MiniKvmRunArgs) {p : Proc}
    (unnamed : p.kvm.name = none) : (serve calls args p).proc.kvm.name = kvmName args.name := by
  have name := nameVm_name calls.fs args.name unnamed
  unfold serve
  generalize nameVm calls.fs args.name p = r at name
  obtain ⟨e, q⟩ := r
  split
  · next made =>
    cases made
    have loop := (runMainLoop_name calls.socket calls.start calls.first calls.rounds q).trans name
    generalize runMainLoop calls.socket calls.start calls.first calls.rounds q = r at loop
    obtain ⟨left, q'⟩ := r
    split
    · next made =>
      cases made
      exact loop
    · next made =>
      cases made
      split <;> exact loop
  · next made =>
    cases made
    exact name

/-- At the socket, `kvm->name` is the name of the command line, unless that is empty. -/
theorem run_name {calls : RunCalls} {args : MiniKvmRunArgs}
    (reaches : (miniKvmRun calls args).Reaches) :
    (miniKvmRun calls args).proc.kvm.name = kvmName args.name := by
  have early : (Proc.parsed calls).Early := by
    intro ret member
    cases List.mem_singleton.mp member
  obtain ⟨name, stages⟩ := initialise_frame calls args early
  obtain ⟨ret, member⟩ := reaches
  unfold miniKvmRun at member ⊢
  dsimp only at member ⊢
  split at member
  · exact absurd member (early ret)
  · next parsed =>
    rw [if_neg parsed]
    split at member
    · exact absurd member (early ret)
    · next calloc =>
      rw [if_neg calloc]
      split at member
      · next q made =>
        change initialise calls args (.parsed calls) = _ at made
        rw [made] at name
        exact serve_name calls args name
      · next made =>
        change initialise calls args (.parsed calls) = _ at made
        rw [made] at stages
        exact absurd member (stages ret)

end MiniKvm.Source.RunStages
