import MiniKvm.Source.Launch

/-!
# The system calls of mini_kvm_setup_kvm

mini_kvm_setup_kvm and kvm_setup_irq (kvm/kvm.c) on the integers that their system calls return, with
every call they issue. Source.Launch has the same function on whether the calls that it checks succeed.
-/
namespace MiniKvm.Source.SetupKvm

/-- `MINI_KVM_CAPS`, without the -1 that ends it. -/
inductive Cap where
  | userMemory | setTssAddr | extCpuid
  deriving DecidableEq, Repr

def miniKvmCaps : List Cap := [.userMemory, .setTssAddr, .extCpuid]

inductive SysCall where
  | openKvm
  | getApiVersion
  | createVm
  | checkExtension (cap : Cap)
  | setTssAddr | setIdentityMapAddr
  | mmap
  | setUserMemoryRegion
  | createIrqchip | createPit2
  deriving DecidableEq, Repr

/-- All but open and mmap. -/
def SysCall.isIoctl : SysCall → Bool
  | .openKvm | .mmap => false
  | _ => true

/-- What a system call returns; MAP_FAILED is -1 as an address. -/
abbrev Answer := { result : Int // -1 ≤ result }

def Answer.failed : Answer := ⟨-1, le_rfl⟩

def Answer.of (n : Nat) : Answer := ⟨n, by omega⟩

@[simp] theorem Answer.failed_val : Answer.failed.val = -1 := rfl

@[simp] theorem Answer.of_val (n : Nat) : (Answer.of n).val = n := rfl

def kvmApiVersion : Int := 12

/-- What mini_kvm_setup_kvm returns, the fields of Kvm that clean-up reads, and the calls with their
results, in order. Of the rest of Kvm nothing is read before it is set. -/
structure Setup where
  ret : MiniKVMError
  kvmFd : Int
  vmFd : Int
  mem : Int
  issued : List (SysCall × Int)

/-- As calloc leaves it. -/
def Setup.start : Setup := ⟨.success, 0, 0, 0, []⟩

def Setup.fail (s : Setup) (e : MiniKVMError) : Setup := { s with ret := e }

section

variable (answers : SysCall → Answer)

def Setup.issue (s : Setup) (call : SysCall) : Setup :=
  { s with issued := s.issued ++ [(call, (answers call).val)] }

/-- The loop over MINI_KVM_CAPS; a capability that is reported absent, by 0, passes. -/
def checkCaps : List Cap → Setup → Setup
  | [], s => s
  | cap :: caps, s =>
    let s := s.issue answers (.checkExtension cap)
    if (answers (.checkExtension cap)).val < 0 then s.fail .unsupportedCaps
    else checkCaps caps s

def kvmSetupIrq (s : Setup) : Setup :=
  let s := s.issue answers .createIrqchip
  if (answers .createIrqchip).val < -1 then s.fail .failedIoctl
  else
    let s := s.issue answers .createPit2
    if (answers .createPit2).val < -1 then s.fail .failedIoctl
    else s

/-- `ioctl(..), 0` is 0 whatever ioctl returns, so neither error path is taken. -/
def setAddrs (intel : Bool) (s : Setup) : Setup :=
  if intel then (s.issue answers .setTssAddr).issue answers .setIdentityMapAddr else s

/-- `intel` is `check_cpu_vendor(GenuineIntel)`. -/
def miniKvmSetupKvm (intel : Bool) (memSize : UInt64) : Setup :=
  let s := { Setup.start.issue answers .openKvm with kvmFd := (answers .openKvm).val }
  if (answers .openKvm).val < 0 then s.fail .noDevice
  else
    let s := s.issue answers .getApiVersion
    if (answers .getApiVersion).val ≠ kvmApiVersion then s.fail .wrongVersion
    else
      let s := { s.issue answers .createVm with vmFd := (answers .createVm).val }
      if (answers .createVm).val < 0 then s.fail .failedVmCreation
      else
        let s := checkCaps answers miniKvmCaps s
        if s.ret ≠ .success then s
        else
          let s := setAddrs answers intel s
          if memSize = 0 then s.fail .failedAllocation
          else
            let s := { s.issue answers .mmap with mem := (answers .mmap).val }
            if (answers .mmap).val = -1 then s.fail .failedAllocation
            else
              let s := s.issue answers .setUserMemoryRegion
              if (answers .setUserMemoryRegion).val < 0 then s.fail .failedMemoryRegionCreation
              else
                let s := kvmSetupIrq answers s
                if s.ret ≠ .success then s.fail .failedVmCreation
                else s

end

/-! ## Where it returns -/

section

variable {answers : SysCall → Answer}

def results (answers : SysCall → Answer) (calls : List SysCall) : List (SysCall × Int) :=
  calls.map fun call => (call, (answers call).val)

/-- The virtual machine is there. -/
structure Created (answers : SysCall → Answer) : Prop where
  openKvm : 0 ≤ (answers .openKvm).val
  apiVersion : (answers .getApiVersion).val = kvmApiVersion
  createVm : 0 ≤ (answers .createVm).val

/-- Every call up to the allocation of the memory that is really checked succeeds. -/
structure Capable (answers : SysCall → Answer) : Prop extends Created answers where
  caps : ∀ cap ∈ miniKvmCaps, 0 ≤ (answers (.checkExtension cap)).val

theorem Capable.noneMissing (capable : Capable answers) :
    ¬ ∃ cap ∈ miniKvmCaps, (answers (.checkExtension cap)).val < 0 := by
  rintro ⟨cap, member, missing⟩
  exact not_lt.mpr (capable.caps cap member) missing

/-- The same of all calls. -/
structure Passes (answers : SysCall → Answer) (memSize : UInt64) : Prop extends Capable answers where
  memSize : memSize ≠ 0
  mmap : (answers .mmap).val ≠ -1
  setUserMemoryRegion : 0 ≤ (answers .setUserMemoryRegion).val

/-- The calls before the memory is allocated. -/
def callsBefore (intel : Bool) : List SysCall :=
  [SysCall.openKvm, SysCall.getApiVersion, SysCall.createVm] ++
    miniKvmCaps.map SysCall.checkExtension ++
      if intel then [SysCall.setTssAddr, SysCall.setIdentityMapAddr] else []

/-- The calls of a set-up that succeeds. -/
def allCalls (intel : Bool) : List SysCall :=
  callsBefore intel ++
    [SysCall.mmap, SysCall.setUserMemoryRegion, SysCall.createIrqchip, SysCall.createPit2]

/-- What mini_kvm_setup_kvm returns and leaves, by the call that fails. -/
inductive SetupCases (answers : SysCall → Answer) (intel : Bool) (memSize : UInt64) : Setup → Prop
    where
  | noDevice (failed : (answers .openKvm).val < 0) : SetupCases answers intel memSize
      ⟨.noDevice, (answers .openKvm).val, 0, 0, results answers [.openKvm]⟩
  | wrongVersion (opened : 0 ≤ (answers .openKvm).val)
    (other : (answers .getApiVersion).val ≠ kvmApiVersion) : SetupCases answers intel memSize
      ⟨.wrongVersion, (answers .openKvm).val, 0, 0, results answers [.openKvm, .getApiVersion]⟩
  | noVm (opened : 0 ≤ (answers .openKvm).val)
    (version : (answers .getApiVersion).val = kvmApiVersion)
    (failed : (answers .createVm).val < 0) : SetupCases answers intel memSize
      ⟨.failedVmCreation, (answers .openKvm).val, (answers .createVm).val, 0,
        results answers [.openKvm, .getApiVersion, .createVm]⟩
  | noCap (created : Created answers) (before after : List Cap) (cap : Cap)
    (split : miniKvmCaps = before ++ cap :: after)
    (failed : (answers (.checkExtension cap)).val < 0) : SetupCases answers intel memSize
      ⟨.unsupportedCaps, (answers .openKvm).val, (answers .createVm).val, 0,
        results answers ([SysCall.openKvm, SysCall.getApiVersion, SysCall.createVm] ++
          (before ++ [cap]).map SysCall.checkExtension)⟩
  | noMemory (capable : Capable answers) (none : memSize = 0) : SetupCases answers intel memSize
      ⟨.failedAllocation, (answers .openKvm).val, (answers .createVm).val, 0,
        results answers (callsBefore intel)⟩
  | noMapping (capable : Capable answers) (some : memSize ≠ 0) (failed : (answers .mmap).val = -1) :
    SetupCases answers intel memSize
      ⟨.failedAllocation, (answers .openKvm).val, (answers .createVm).val, (answers .mmap).val,
        results answers (callsBefore intel ++ [.mmap])⟩
  | noRegion (capable : Capable answers) (some : memSize ≠ 0) (mapped : (answers .mmap).val ≠ -1)
    (failed : (answers .setUserMemoryRegion).val < 0) : SetupCases answers intel memSize
      ⟨.failedMemoryRegionCreation, (answers .openKvm).val, (answers .createVm).val,
        (answers .mmap).val, results answers (callsBefore intel ++ [.mmap, .setUserMemoryRegion])⟩
  | done (passes : Passes answers memSize) : SetupCases answers intel memSize
      ⟨.success, (answers .openKvm).val, (answers .createVm).val, (answers .mmap).val,
        results answers (allCalls intel)⟩

/-- The loop gets through the capabilities, or ends at the first that is reported by -1. -/
theorem checkCaps_cases (answers : SysCall → Answer) (caps : List Cap) (s : Setup) :
    (∀ cap ∈ caps, 0 ≤ (answers (.checkExtension cap)).val) ∧
        checkCaps answers caps s =
          { s with issued := s.issued ++ results answers (caps.map .checkExtension) } ∨
      ∃ before after cap, caps = before ++ cap :: after ∧
        (answers (.checkExtension cap)).val < 0 ∧
        checkCaps answers caps s = { s with
          ret := .unsupportedCaps
          issued := s.issued ++ results answers ((before ++ [cap]).map .checkExtension) } := by
  induction caps generalizing s with
  | nil => simp [checkCaps, results]
  | cons cap caps ih =>
    by_cases failed : (answers (.checkExtension cap)).val < 0
    · refine .inr ⟨[], caps, cap, rfl, failed, ?_⟩
      rw [checkCaps, if_pos failed]
      rfl
    · rw [checkCaps, if_neg failed]
      rcases ih (s.issue answers (.checkExtension cap)) with
        ⟨passes, goes⟩ | ⟨before, after, c, rfl, missing, goes⟩
      · refine .inl ⟨?_, ?_⟩
        · simpa [not_lt.mp failed] using passes
        · rw [goes]
          simp [Setup.issue, results]
      · refine .inr ⟨cap :: before, after, c, rfl, missing, ?_⟩
        rw [goes]
        simp [Setup.issue, results]

/-- Neither test of kvm_setup_irq can hold. -/
theorem kvmSetupIrq_eq (s : Setup) :
    kvmSetupIrq answers s = (s.issue answers .createIrqchip).issue answers .createPit2 := by
  have irqchip := (answers .createIrqchip).property
  have pit2 := (answers .createPit2).property
  unfold kvmSetupIrq
  rw [if_neg (by omega), if_neg (by omega)]

theorem setAddrs_eq (intel : Bool) (s : Setup) :
    setAddrs answers intel s = { s with
      issued := s.issued ++
        results answers (if intel then [.setTssAddr, .setIdentityMapAddr] else []) } := by
  cases intel <;> simp [setAddrs, Setup.issue, results]

/-- The set-up between the loop over the capabilities and the allocation of the memory. -/
theorem setAddrs_checkCaps (intel : Bool) :
    setAddrs answers intel ⟨.success, (answers .openKvm).val, (answers .createVm).val, 0,
        results answers [.openKvm, .getApiVersion, .createVm] ++
          results answers (miniKvmCaps.map .checkExtension)⟩ =
      ⟨.success, (answers .openKvm).val, (answers .createVm).val, 0,
        results answers (callsBefore intel)⟩ := by
  simp [setAddrs_eq, callsBefore, results]

theorem issue_results (ret : MiniKVMError) (kvmFd vmFd mem : Int) (calls : List SysCall)
    (call : SysCall) :
    (⟨ret, kvmFd, vmFd, mem, results answers calls⟩ : Setup).issue answers call =
      ⟨ret, kvmFd, vmFd, mem, results answers (calls ++ [call])⟩ := by
  simp [Setup.issue, results]

theorem setup_cases (answers : SysCall → Answer) (intel : Bool) (memSize : UInt64) :
    SetupCases answers intel memSize (miniKvmSetupKvm answers intel memSize) := by
  unfold miniKvmSetupKvm
  dsimp only
  by_cases opened : (answers .openKvm).val < 0
  · rw [if_pos opened]
    exact .noDevice opened
  rw [if_neg opened]
  by_cases version : (answers .getApiVersion).val = kvmApiVersion
  swap
  · rw [if_pos version]
    exact .wrongVersion (not_lt.mp opened) version
  rw [if_neg (not_not.mpr version)]
  by_cases made : (answers .createVm).val < 0
  · rw [if_pos made]
    exact .noVm (not_lt.mp opened) version made
  rw [if_neg made]
  have created : Created answers := ⟨not_lt.mp opened, version, not_lt.mp made⟩
  rcases checkCaps_cases answers miniKvmCaps _ with
    ⟨caps, goes⟩ | ⟨before, after, cap, split', failed, goes⟩
  swap
  · rw [goes, if_pos (by simp)]
    exact .noCap created before after cap split' failed
  have capable : Capable answers := ⟨created, caps⟩
  have start : checkCaps answers miniKvmCaps
      { ({ Setup.start.issue answers .openKvm with
            kvmFd := (answers .openKvm).val }.issue answers .getApiVersion).issue answers
          .createVm with vmFd := (answers .createVm).val } =
      ⟨.success, (answers .openKvm).val, (answers .createVm).val, 0,
        results answers [.openKvm, .getApiVersion, .createVm] ++
          results answers (miniKvmCaps.map .checkExtension)⟩ := goes
  rw [start, if_neg (not_not.mpr rfl), setAddrs_checkCaps, issue_results]
  by_cases none : memSize = 0
  · rw [if_pos none]
    exact .noMemory capable none
  rw [if_neg none]
  by_cases unmapped : (answers .mmap).val = -1
  · rw [if_pos unmapped]
    exact .noMapping capable none unmapped
  rw [if_neg unmapped, issue_results, List.append_assoc]
  by_cases region : (answers .setUserMemoryRegion).val < 0
  · rw [if_pos region]
    exact .noRegion capable none unmapped region
  rw [if_neg region, kvmSetupIrq_eq, issue_results, issue_results, if_neg (not_not.mpr rfl),
    List.append_assoc, List.append_assoc]
  exact .done ⟨capable, none, unmapped, not_lt.mp region⟩

/-- It returns success exactly where the calls that are really checked succeed. -/
theorem success_iff_passes {intel : Bool} {memSize : UInt64} :
    (miniKvmSetupKvm answers intel memSize).ret = .success ↔ Passes answers memSize := by
  have cases_ := setup_cases answers intel memSize
  generalize miniKvmSetupKvm answers intel memSize = s at cases_ ⊢
  cases cases_ with
  | noDevice failed => exact iff_of_false (by simp) fun passes => not_lt.mpr passes.openKvm failed
  | wrongVersion opened other => exact iff_of_false (by simp) fun passes => other passes.apiVersion
  | noVm opened version failed =>
    exact iff_of_false (by simp) fun passes => not_lt.mpr passes.createVm failed
  | noCap created before after cap split failed =>
    refine iff_of_false (by simp) fun passes => not_lt.mpr (passes.caps cap ?_) failed
    rw [split]
    exact List.mem_append_right _ List.mem_cons_self
  | noMemory capable none => exact iff_of_false (by simp) fun passes => passes.memSize none
  | noMapping capable some failed => exact iff_of_false (by simp) fun passes => passes.mmap failed
  | noRegion capable some mapped failed =>
    exact iff_of_false (by simp) fun passes => not_lt.mpr passes.setUserMemoryRegion failed
  | done passes => exact iff_of_true rfl passes

/-- Where it returns success it has issued every call. -/
theorem issued_of_passes {intel : Bool} {memSize : UInt64} (passes : Passes answers memSize) :
    (miniKvmSetupKvm answers intel memSize).issued = results answers (allCalls intel) := by
  have success : (miniKvmSetupKvm answers intel memSize).ret = .success :=
    success_iff_passes.mpr passes
  have cases_ := setup_cases answers intel memSize
  generalize miniKvmSetupKvm answers intel memSize = s at cases_ success ⊢
  cases cases_ with
  | done passes => rfl
  | _ => cases success

/-! ## As part of the launch -/

/-- The calls that the launch looks at. -/
def checked (answers : SysCall → Answer) : Launch.SetupCalls where
  openKvm := decide (0 ≤ (answers .openKvm).val)
  apiVersion := decide ((answers .getApiVersion).val = kvmApiVersion)
  createVm := decide (0 ≤ (answers .createVm).val)
  checkExtensions := miniKvmCaps.all fun cap => decide (0 ≤ (answers (.checkExtension cap)).val)
  mmap := decide ((answers .mmap).val ≠ -1)
  setUserMemoryRegion := decide (0 ≤ (answers .setUserMemoryRegion).val)

/-- mini_kvm_setup_kvm returns what the launch says, which does not know of the other calls. -/
theorem miniKvmSetupKvm_ret (answers : SysCall → Answer) (intel : Bool) (memSize : UInt64) :
    (miniKvmSetupKvm answers intel memSize).ret =
      match Launch.miniKvmSetupKvm (checked answers) memSize with
      | .ok _ => .success
      | .error e => e := by
  unfold Launch.miniKvmSetupKvm checked
  have cases_ := setup_cases answers intel memSize
  generalize miniKvmSetupKvm answers intel memSize = s at cases_ ⊢
  cases cases_ with
  | noDevice failed => simp [failed]
  | wrongVersion opened other => simp [opened, other]
  | noVm opened version failed => simp [opened, version, failed]
  | noCap created before after cap split failed =>
    have missing : ¬ ∀ c ∈ miniKvmCaps, 0 ≤ (answers (.checkExtension c)).val := by
      intro caps
      refine not_lt.mpr (caps cap ?_) failed
      rw [split]
      exact List.mem_append_right _ List.mem_cons_self
    simp [created.openKvm, created.apiVersion, created.createVm, missing]
  | noMemory capable none =>
    have fine := capable.noneMissing
    obtain ⟨⟨opened, version, made⟩, -⟩ := capable
    simp [opened, version, made, fine, none]
  | noMapping capable some failed =>
    have fine := capable.noneMissing
    obtain ⟨⟨opened, version, made⟩, -⟩ := capable
    simp [opened, version, made, fine, some, failed]
  | noRegion capable some mapped failed =>
    have fine := capable.noneMissing
    obtain ⟨⟨opened, version, made⟩, -⟩ := capable
    simp [opened, version, made, fine, some, mapped, failed]
  | done passes =>
    have fine := passes.noneMissing
    obtain ⟨⟨⟨opened, version, made⟩, -⟩, some, mapped, region⟩ := passes
    simp [opened, version, made, fine, some, mapped, region]

end

end MiniKvm.Source.SetupKvm
