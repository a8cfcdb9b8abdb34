import MiniKvm.Source.Boot
import MiniKvm.Source.RunArgs

/-!
# From the options to a loaded kernel

mini_kvm_setup_kvm and mini_kvm_add_vcpu (kvm/kvm.c), load_kernel and the part of mini_kvm_run up to
it (commands/run.c). What the kernel of the host answers is a parameter. A failing step leaves with
its error, as the gotos of mini_kvm_run do.
-/
namespace MiniKvm.Source.Launch
open Lib Boot RunArgs

/-! ## mini_kvm_setup_kvm -/

/-- Whether the calls that mini_kvm_setup_kvm checks succeed. The ioctls behind `check_cpu_vendor` and
in kvm_setup_irq are compared with a comma and with `< -1`, which never holds. -/
structure SetupCalls where
  (openKvm apiVersion createVm checkExtensions mmap setUserMemoryRegion : Bool)
  deriving DecidableEq, Repr

/-- The fields of Kvm that the set-up is about. -/
structure Machine where
  memSize : Int64
  mem : ByteMem
  vcpus : List VCpu

def miniKvmSetupKvm (calls : SetupCalls) (memSize : UInt64) : Except MiniKVMError Machine :=
  if ¬ calls.openKvm then .error .noDevice
  else if ¬ calls.apiVersion then .error .wrongVersion
  else if ¬ calls.createVm then .error .failedVmCreation
  else if ¬ calls.checkExtensions then .error .unsupportedCaps
  else if memSize = 0 then .error .failedAllocation
  else if ¬ calls.mmap then .error .failedAllocation
  else if ¬ calls.setUserMemoryRegion then .error .failedMemoryRegionCreation
  else .ok ⟨memSize.toInt64, fun _ => 0, []⟩

/-! ## mini_kvm_add_vcpu -/

/-- The calls of mini_kvm_add_vcpu, and the registers KVM gives a new vcpu. -/
structure VcpuCalls where
  (createVcpu getVcpuMmapSize mmap : Bool)
  ioctls : Ioctls
  vcpu : VCpu

def miniKvmAddVcpu (calls : VcpuCalls) (machine : Machine) : Except MiniKVMError Machine :=
  if calls.createVcpu ∧ calls.getVcpuMmapSize ∧ calls.mmap then
    match miniKvmSetupVcpu calls.ioctls machine.memSize calls.vcpu bootloaderAddr with
    | (.success, vcpu) => .ok { machine with vcpus := machine.vcpus ++ [vcpu] }
    | _ => .error .failedVcpuCreation
  else .error .failedVcpuCreation

/-- The loop of mini_kvm_run over `args.vcpu`. -/
def addVcpus (calls : Nat → VcpuCalls) : Nat → Machine → Except MiniKVMError Machine
  | 0, machine => .ok machine
  | count + 1, machine =>
    match miniKvmAddVcpu (calls machine.vcpus.length) machine with
    | .error e => .error e
    | .ok machine => addVcpus calls count machine

/-! ## load_kernel -/

/-- What load_kernel returns and leaves in guest memory, and the offsets that it stores to. -/
structure Loaded where
  ret : MiniKVMError
  mem : ByteMem
  stores : List Nat

/-- Past its tests for NULL: `kvm`, `args` and `kvm->mem` are set where mini_kvm_run calls it. -/
def loadKernel (mem : ByteMem) (args : MiniKvmRunArgs) (addr : UInt64) : Loaded :=
  match args.kernelCode with
  | none => ⟨.internalError, mem, []⟩
  | some code =>
    if args.kernelSize = 0 then ⟨.internalError, mem, []⟩
    else
      ⟨.success, mem.copy addr.toNat (code.take args.kernelSize),
        (List.range args.kernelSize).map (addr.toNat + ·)⟩

/-! ## mini_kvm_run, up to load_kernel -/

structure RunCalls where
  setup : SetupCalls
  vcpu : Nat → VcpuCalls
  /-- KVM_SET_SREGS in mini_kvm_configure_paging. -/
  setSregs : Bool

/-- mini_kvm_configure_paging on the first vcpu of the machine. -/
def configurePaging (setSregs : Bool) (machine : Machine) : Except MiniKVMError Kvm :=
  match miniKvmConfigurePaging setSregs ⟨machine.memSize, machine.mem, machine.vcpus.headD default⟩
  with
  | (.success, kvm) => .ok kvm
  | (e, _) => .error e

def prepare (calls : RunCalls) (args : MiniKvmRunArgs) : Except MiniKVMError Kvm :=
  match miniKvmSetupKvm calls.setup (.ofNat args.memSize) with
  | .error e => .error e
  | .ok machine =>
    match addVcpus calls.vcpu args.vcpu machine with
    | .error e => .error e
    | .ok machine => configurePaging calls.setSregs machine

/-! ## What they keep -/

theorem miniKvmSetupKvm_ok {calls : SetupCalls} {memSize : UInt64} {machine : Machine}
    (ok : miniKvmSetupKvm calls memSize = .ok machine) : machine.memSize = memSize.toInt64 := by
  unfold miniKvmSetupKvm at ok
  repeat' split at ok
  all_goals first | cases ok; done | skip
  cases ok
  rfl

theorem miniKvmAddVcpu_ok {calls : VcpuCalls} {machine machine' : Machine}
    (ok : miniKvmAddVcpu calls machine = .ok machine') : machine'.memSize = machine.memSize := by
  unfold miniKvmAddVcpu at ok
  split at ok
  · split at ok
    · cases ok
      rfl
    · cases ok
  · cases ok

theorem addVcpus_ok {calls : Nat → VcpuCalls} {count : Nat} {machine machine' : Machine}
    (ok : addVcpus calls count machine = .ok machine') : machine'.memSize = machine.memSize := by
  induction count generalizing machine with
  | zero =>
    cases ok
    rfl
  | succ count ih =>
    unfold addVcpus at ok
    split at ok
    · cases ok
    · next added => exact (ih ok).trans (miniKvmAddVcpu_ok added)

theorem exists_configurePaging {machine : Machine}
    (enough : minimumMemoryRequired ≤ machine.memSize) :
    ∃ kvm, configurePaging true machine = .ok kvm := by
  obtain ⟨mem, pages⟩ := kvmSetupPages_of_enough enough machine.mem
  unfold configurePaging
  simp only [miniKvmConfigurePaging, pages, if_true]
  exact ⟨_, rfl⟩

/-- Where mini_kvm_run reaches load_kernel the memory has the size that was asked for, and that is
enough for the page tables. -/
theorem prepare_ok {calls : RunCalls} {args : MiniKvmRunArgs} {kvm : Kvm}
    (ok : prepare calls args = .ok kvm) :
    kvm.memSize = (UInt64.ofNat args.memSize).toInt64 ∧ minimumMemoryRequired ≤ kvm.memSize := by
  unfold prepare at ok
  split at ok
  · cases ok
  · next setup =>
    split at ok
    · cases ok
    · next added =>
      unfold configurePaging at ok
      split at ok
      · next paging =>
        cases ok
        obtain ⟨pages, size, -, -⟩ := miniKvmConfigurePaging_success paging
        rw [size, addVcpus_ok added, miniKvmSetupKvm_ok setup]
        have enough := (kvmSetupPages_success pages).1
        rw [addVcpus_ok added, miniKvmSetupKvm_ok setup] at enough
        exact ⟨rfl, enough⟩
      · cases ok

end MiniKvm.Source.Launch
