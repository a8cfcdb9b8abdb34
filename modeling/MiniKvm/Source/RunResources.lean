import MiniKvm.Source.RunStages

/-!
# What the stages of mini_kvm_run own

Each stage against the descriptors and mappings that the fields of Kvm stand for. What mini_kvm_clean_kvm
releases is what these fields stand for, so the rest is lost.
-/
namespace MiniKvm.Source.RunStages
open Lib.Resources Descriptors SetupKvm RunArgs

/-! ## Single calls -/

/-- What a field with a descriptor stands for. -/
def ofFd (fd : Int) : List Resource := if fd < 0 then [] else [.fd fd.toNat]

/-- What a field with an address stands for. -/
def ofAddr (addr : Int) : List Resource := if addr < 0 then [] else [.mapping addr.toNat]

@[simp] theorem ofFd_natCast (n : Nat) : ofFd n = [.fd n] := if_neg (by omega)

@[simp] theorem ofFd_failed : ofFd (-1) = [] := rfl

@[simp] theorem ofAddr_natCast (n : Nat) : ofAddr n = [.mapping n] := if_neg (by omega)

@[simp] theorem ofAddr_failed : ofAddr (-1) = [] := rfl

section Calls

variable {t : Table Resource} {owned : List Resource}

theorem fd_not_mem (t : Table Resource) : .fd (lowestFd t) ∉ t.live := by
  intro member
  have used : lowestFd t ∈ t.live.filterMap Resource.fd? :=
    List.mem_filterMap.mpr ⟨_, member, rfl⟩
  exact lowestFree_not_mem _ used

theorem mapping_not_mem (t : Table Resource) : .mapping (freshAddr t) ∉ t.live := by
  intro member
  have used : freshAddr t ∈ 0 :: t.live.filterMap Resource.mapping? :=
    List.mem_cons_of_mem _ (List.mem_filterMap.mpr ⟨_, member, rfl⟩)
  exact lowestFree_not_mem _ used

theorem freshAddr_pos (t : Table Resource) : freshAddr t ≠ 0 := by
  intro zero
  refine lowestFree_not_mem (0 :: t.live.filterMap Resource.mapping?) ?_
  rw [← freshAddr, zero]
  exact List.mem_cons_self

theorem owns_openFd (owns : Owns t owned) (ok : Bool) :
    Owns (openFd t ok).2 (ofFd (openFd t ok).1 ++ owned) := by
  cases ok with
  | false => exact owns
  | true =>
    have acquired := owns.acquire (fd_not_mem t)
    rwa [openFd, if_pos rfl, ofFd_natCast]

theorem owns_mmap (owns : Owns t owned) (ok : Bool) :
    Owns (mmap t ok).2 (ofAddr (mmap t ok).1 ++ owned) := by
  cases ok with
  | false => exact owns
  | true =>
    have acquired := owns.acquire (mapping_not_mem t)
    rwa [mmap, if_pos rfl, ofAddr_natCast]

theorem owns_close {fd : Int} (owns : Owns t (ofFd fd ++ owned)) : Owns (close t fd) owned := by
  unfold close
  unfold ofFd at owns
  split
  · next failed => simpa [failed] using owns
  · next opened =>
    rw [if_neg opened] at owns
    exact owns.release

theorem owns_munmap {addr : Int} (owns : Owns t (ofAddr addr ++ owned)) :
    Owns (munmap t addr) owned := by
  unfold munmap
  unfold ofAddr at owns
  split
  · next failed => simpa [failed] using owns
  · next mapped =>
    rw [if_neg mapped] at owns
    exact owns.release

theorem live_openFd {r : Resource} (ok : Bool) (member : r ∈ t.live) :
    r ∈ (openFd t ok).2.live := by
  cases ok with
  | false => exact member
  | true => exact List.mem_cons_of_mem _ member

theorem live_mmap {r : Resource} (ok : Bool) (member : r ∈ t.live) : r ∈ (mmap t ok).2.live := by
  cases ok with
  | false => exact member
  | true => exact List.mem_cons_of_mem _ member

/-- Nothing is opened as descriptor 0 while that is open. -/
theorem openFd_pos (stdin : .fd 0 ∈ t.live) : 0 < (openFd t true).1 := by
  have other : lowestFd t ≠ 0 := fun zero => fd_not_mem t (zero ▸ stdin)
  simp only [openFd, if_true]
  omega

@[simp] theorem openFd_neg (t : Table Resource) (ok : Bool) : (openFd t ok).1 < 0 ↔ ok = false := by
  cases ok <;> simp [openFd]

@[simp] theorem mmap_failed (t : Table Resource) (ok : Bool) : (mmap t ok).1 = -1 ↔ ok = false := by
  cases ok with
  | false => simp [mmap]
  | true =>
    simp only [mmap, if_true, Bool.true_eq_false, iff_false]
    omega

end Calls

/-! ## mini_kvm_clean_kvm -/

/-- What clean-up releases, in its order. -/
def Kvm.owned (kvm : Kvm) : List Resource :=
  kvm.vcpus.flatMap (fun vcpu => ofAddr vcpu.kvmRun ++ ofFd vcpu.fd) ++
    ((if kvm.name.isSome then ofFd kvm.fsFd else []) ++
      ((if kvm.mem ≠ 0 then ofAddr kvm.mem else []) ++ (ofFd kvm.kvmFd ++ ofFd kvm.vmFd)))

/-- The process owns what its Kvm stands for, and `lost` besides. -/
def Holds (p : Proc) (lost : List Resource) : Prop := Owns p.table (p.kvm.owned ++ lost)

theorem owns_vcpus {vcpus : List VCpu} {t : Table Resource} {rest : List Resource}
    (owns : Owns t (vcpus.flatMap (fun vcpu => ofAddr vcpu.kvmRun ++ ofFd vcpu.fd) ++ rest)) :
    Owns (vcpus.foldl (fun t vcpu => close (munmap t vcpu.kvmRun) vcpu.fd) t) rest := by
  induction vcpus generalizing t with
  | nil => exact owns
  | cons vcpu vcpus ih =>
    rw [List.flatMap_cons, List.append_assoc, List.append_assoc] at owns
    exact ih (owns_close (owns_munmap owns))

/-- What is released only where a field is set. -/
theorem owns_if {c : Prop} [Decidable c] {t u : Table Resource} {rs rest : List Resource}
    (owns : Owns t ((if c then rs else []) ++ rest)) (releases : Owns t (rs ++ rest) → Owns u rest) :
    Owns (if c then u else t) rest := by
  split
  · next here =>
    rw [if_pos here] at owns
    exact releases owns
  · next absent =>
    rw [if_neg absent] at owns
    exact owns

/-- Clean-up leaves what is lost. -/
theorem owns_clean {p : Proc} {lost : List Resource} (holds : Holds p lost) :
    Owns (miniKvmCleanKvm p) lost := by
  unfold Holds Kvm.owned at holds
  simp only [List.append_assoc] at holds
  have fs := owns_if (owns_vcpus holds) owns_close
  have mem := owns_if fs owns_munmap
  exact owns_close (owns_close mem)

/-! ## mini_kvm_setup_kvm -/

section Setup

variable {t : Table Resource} {wants : SysCall → Answer}

theorem granted_openKvm (opened : 0 ≤ (wants .openKvm).val) :
    (granted t wants .openKvm).val = lowestFd t := by
  simp [granted, not_lt.mpr opened]

theorem granted_openKvm_neg (failed : (wants .openKvm).val < 0) :
    (granted t wants .openKvm).val = -1 := by
  simp [granted, failed]

theorem granted_createVm (created : 0 ≤ (wants .createVm).val) :
    (granted t wants .createVm).val = lowestFd (t.acquire (.fd (lowestFd t))) := by
  simp [granted, not_lt.mpr created]

theorem granted_createVm_neg (failed : (wants .createVm).val < 0) :
    (granted t wants .createVm).val = -1 := by
  simp [granted, failed]

theorem granted_mmap (mapped : (wants .mmap).val ≠ -1) :
    (granted t wants .mmap).val = freshAddr t := by
  simp [granted, mapped]

/-- The kernel grants what is wanted. -/
theorem granted_sign (t : Table Resource) (wants : SysCall → Answer) :
    ((granted t wants .openKvm).val < 0 ↔ (wants .openKvm).val < 0) ∧
      ((granted t wants .createVm).val < 0 ↔ (wants .createVm).val < 0) ∧
      ((granted t wants .mmap).val = -1 ↔ (wants .mmap).val = -1) := by
  refine ⟨?_, ?_, ?_⟩
  · by_cases failed : (wants .openKvm).val < 0
    · rw [granted_openKvm_neg failed]
      exact iff_of_true (by decide) failed
    · rw [granted_openKvm (not_lt.mp failed)]
      exact iff_of_false (by omega) failed
  · by_cases failed : (wants .createVm).val < 0
    · rw [granted_createVm_neg failed]
      exact iff_of_true (by decide) failed
    · rw [granted_createVm (not_lt.mp failed)]
      exact iff_of_false (by omega) failed
  · by_cases failed : (wants .mmap).val = -1
    · simp [granted, failed]
    · rw [granted_mmap failed]
      exact iff_of_false (by omega) failed

theorem passes_granted {memSize : UInt64} :
    Passes (granted t wants) memSize ↔ Passes wants memSize := by
  obtain ⟨openKvm, createVm, mmap⟩ := granted_sign t wants
  constructor
  · rintro ⟨⟨⟨opened, version, created⟩, caps⟩, size, mapped, region⟩
    exact ⟨⟨⟨by omega, version, by omega⟩, caps⟩, size, mt mmap.mpr mapped, region⟩
  · rintro ⟨⟨⟨opened, version, created⟩, caps⟩, size, mapped, region⟩
    exact ⟨⟨⟨by omega, version, by omega⟩, caps⟩, size, mt mmap.mp mapped, region⟩

/-- The calls that add to the table. -/
def acquires : SysCall → Bool
  | .openKvm | .createVm | .mmap => true
  | _ => false

theorem acquireFrom_none (answers : SysCall → Answer) (t : Table Resource) {calls : List SysCall}
    (none : ∀ call ∈ calls, acquires call = false) :
    (results answers calls).foldl acquireFrom t = t := by
  induction calls generalizing t with
  | nil => rfl
  | cons call calls ih =>
    have here := none call List.mem_cons_self
    have rest := ih t fun c member => none c (List.mem_cons_of_mem _ member)
    cases call with
    | openKvm | createVm | mmap => cases here
    | _ => exact rest

/-- The table once the virtual machine is there. -/
def createdTable (t : Table Resource) : Table Resource :=
  (t.acquire (.fd (lowestFd t))).acquire (.fd (lowestFd (t.acquire (.fd (lowestFd t)))))

@[simp] theorem acquireFrom_failed (call : SysCall) : acquireFrom t (call, -1) = t := by
  cases call <;> rfl

theorem acquireFrom_openKvm (n : Nat) : acquireFrom t (.openKvm, n) = t.acquire (.fd n) := by
  rw [acquireFrom, if_neg (by omega), Int.toNat_natCast]

theorem acquireFrom_createVm (n : Nat) : acquireFrom t (.createVm, n) = t.acquire (.fd n) := by
  rw [acquireFrom, if_neg (by omega), Int.toNat_natCast]

theorem acquireFrom_mmap (n : Nat) : acquireFrom t (.mmap, n) = t.acquire (.mapping n) := by
  rw [acquireFrom, if_neg (by omega), Int.toNat_natCast]

theorem fold_created (opened : 0 ≤ (wants .openKvm).val) (created : 0 ≤ (wants .createVm).val)
    (more : List SysCall) (none : ∀ call ∈ more, acquires call = false) :
    (results (granted t wants) ([SysCall.openKvm, SysCall.getApiVersion, SysCall.createVm] ++
      more)).foldl acquireFrom t = createdTable t := by
  have later := acquireFrom_none (granted t wants) (createdTable t) none
  have kvmFd := granted_openKvm (t := t) opened
  have vmFd := granted_createVm (t := t) created
  rw [results, List.map_append, List.foldl_append]
  simp only [List.map_cons, List.map_nil, List.foldl_cons, List.foldl_nil, kvmFd, vmFd,
    acquireFrom_openKvm, acquireFrom_createVm]
  exact later

theorem owns_created (start : Owns t []) :
    Owns (createdTable t)
      (.fd (lowestFd (t.acquire (.fd (lowestFd t)))) :: [.fd (lowestFd t)]) :=
  (start.acquire (fd_not_mem t)).acquire (fd_not_mem _)

theorem mapping_not_mem_created (t : Table Resource) :
    .mapping (freshAddr t) ∉ (createdTable t).live := by
  simpa [createdTable, Table.acquire] using mapping_not_mem t

/-- The fields and the table once the virtual machine is there; `mem` as far as it has come. -/
theorem holds_created (start : Owns t []) (opened : 0 ≤ (wants .openKvm).val)
    (created : 0 ≤ (wants .createVm).val) {mem : Int} (unmapped : mem = 0 ∨ mem = -1)
    (stages : List (Stage × Int32)) :
    Holds ⟨{ Kvm.zero with
      kvmFd := (granted t wants .openKvm).val, vmFd := (granted t wants .createVm).val, mem := mem },
      createdTable t, stages⟩ [] := by
  refine (owns_created start).perm ?_
  rw [granted_openKvm opened, granted_createVm created]
  have none : (if mem ≠ 0 then ofAddr mem else []) = [] := by
    rcases unmapped with rfl | rfl <;> rfl
  simp only [Kvm.owned, Kvm.zero, none, ofFd_natCast]
  exact .swap _ _ []

theorem holds_mapped (start : Owns t []) (opened : 0 ≤ (wants .openKvm).val)
    (created : 0 ≤ (wants .createVm).val) (mapped : (wants .mmap).val ≠ -1)
    (stages : List (Stage × Int32)) :
    Holds ⟨{ Kvm.zero with
      kvmFd := (granted t wants .openKvm).val, vmFd := (granted t wants .createVm).val
      mem := (granted t wants .mmap).val },
      (createdTable t).acquire (.mapping (freshAddr t)), stages⟩ [] := by
  refine ((owns_created start).acquire (mapping_not_mem_created t)).perm ?_
  have pos := freshAddr_pos t
  rw [granted_openKvm opened, granted_createVm created, granted_mmap mapped]
  simp only [Kvm.owned, Kvm.zero, ofFd_natCast, ofAddr_natCast]
  rw [if_pos (by simpa using pos)]
  exact .cons _ (.swap _ _ [])

theorem fold_callsBefore (opened : 0 ≤ (wants .openKvm).val) (created : 0 ≤ (wants .createVm).val)
    (intel : Bool) (more : List SysCall) :
    (results (granted t wants) (callsBefore intel ++ more)).foldl acquireFrom t =
      (results (granted t wants) more).foldl acquireFrom (createdTable t) := by
  have before : (results (granted t wants) (callsBefore intel)).foldl acquireFrom t =
      createdTable t := by
    rw [callsBefore, List.append_assoc]
    refine fold_created opened created _ ?_
    intro call member
    rcases List.mem_append.mp member with cap | addr
    · obtain ⟨cap, -, rfl⟩ := List.mem_map.mp cap
      rfl
    · cases intel <;> simp at addr
      rcases addr with rfl | rfl <;> rfl
  simp only [results] at before ⊢
  rw [List.map_append, List.foldl_append, before]

/-- The memory is mapped once the machine is there. -/
theorem fold_mapped (opened : 0 ≤ (wants .openKvm).val) (created : 0 ≤ (wants .createVm).val)
    (mapped : (wants .mmap).val ≠ -1) (intel : Bool) (more : List SysCall)
    (none : ∀ call ∈ more, acquires call = false) :
    (results (granted t wants) (callsBefore intel ++ .mmap :: more)).foldl acquireFrom t =
      (createdTable t).acquire (.mapping (freshAddr t)) := by
  rw [fold_callsBefore opened created]
  have addr := granted_mmap (t := t) mapped
  simp only [results, List.map_cons, List.foldl_cons, addr, acquireFrom_mmap]
  exact acquireFrom_none _ _ none

/-- The device cannot be opened, or speaks another version. -/
def NoKvm (wants : SysCall → Answer) : Prop :=
  (wants .openKvm).val < 0 ∨ (wants .getApiVersion).val ≠ kvmApiVersion

theorem not_noKvm_of_passes {memSize : UInt64} (passes : Passes wants memSize) : ¬ NoKvm wants := by
  rintro (failed | other)
  · exact not_lt.mpr passes.openKvm failed
  · exact other passes.apiVersion

/-- Where the version of the API is right, what mini_kvm_setup_kvm has opened is in the fields,
wherever it returns. -/
theorem holds_setupKvm {p : Proc} (zero : p.kvm = .zero) (start : Owns p.table [])
    (kvm : ¬ NoKvm wants) (intel : Bool) (memSize : UInt64) :
    Holds (setupKvm wants intel memSize p).2 [] := by
  have opened : 0 ≤ (wants .openKvm).val := not_lt.mp fun failed => kvm (.inl failed)
  have version : (wants .getApiVersion).val = kvmApiVersion :=
    not_not.mp fun other => kvm (.inr other)
  obtain ⟨openSign, createSign, mmapSign⟩ := granted_sign p.table wants
  have cases_ := setup_cases (granted p.table wants) intel memSize
  unfold setupKvm
  generalize miniKvmSetupKvm (granted p.table wants) intel memSize = s at cases_ ⊢
  rw [zero]
  cases cases_ with
  | noDevice failed => omega
  | wrongVersion _ other => exact absurd version other
  | noVm _ _ failed =>
    have kvmFd := granted_openKvm (t := p.table) opened
    have vmFd : (granted p.table wants .createVm).val = -1 :=
      granted_createVm_neg (createSign.mp failed)
    have acquired := start.acquire (fd_not_mem p.table)
    have issued : (results (granted p.table wants) [.openKvm, .getApiVersion, .createVm]).foldl
        acquireFrom p.table = p.table.acquire (.fd (lowestFd p.table)) := by
      simp only [results, List.map_cons, List.map_nil, List.foldl_cons, List.foldl_nil, kvmFd, vmFd,
        acquireFrom_openKvm, acquireFrom_failed]
      rfl
    simp only [Holds, issued, kvmFd, vmFd]
    exact acquired
  | noCap made before after cap split failed =>
    have created : 0 ≤ (wants .createVm).val := by
      have := made.createVm
      omega
    have issued : (results (granted p.table wants) ([.openKvm, .getApiVersion, .createVm] ++
        (before ++ [cap]).map .checkExtension)).foldl acquireFrom p.table =
          createdTable p.table := by
      refine fold_created opened created _ ?_
      intro call member
      obtain ⟨c, -, rfl⟩ := List.mem_map.mp member
      rfl
    simp only [issued]
    exact holds_created start opened created (.inl rfl) p.stages
  | noMemory capable none =>
    have created : 0 ≤ (wants .createVm).val := by
      have := capable.createVm
      omega
    have issued := fold_callsBefore (t := p.table) opened created intel []
    rw [List.append_nil] at issued
    simp only [issued]
    exact holds_created start opened created (.inl rfl) p.stages
  | noMapping capable some failed =>
    have created : 0 ≤ (wants .createVm).val := by
      have := capable.createVm
      omega
    have issued := fold_callsBefore (t := p.table) opened created intel [.mmap]
    simp only [results, List.map_cons, List.map_nil, failed, List.foldl_cons, acquireFrom_failed,
      List.foldl_nil] at issued
    simp only [results, issued, failed]
    exact holds_created start opened created (.inr rfl) p.stages
  | noRegion capable some mapped failed =>
    have created : 0 ≤ (wants .createVm).val := by
      have := capable.createVm
      omega
    have wanted : (wants .mmap).val ≠ -1 := fun failed => mapped (mmapSign.mpr failed)
    simp only [fold_mapped opened created wanted intel [.setUserMemoryRegion] (by decide)]
    exact holds_mapped start opened created wanted p.stages
  | done passes =>
    obtain ⟨-, -, created⟩ := (passes_granted.mp passes).toCreated
    have wanted := (passes_granted.mp passes).mmap
    have issued := fold_mapped (t := p.table) opened created wanted intel
      [.setUserMemoryRegion, .createIrqchip, .createPit2] (by decide)
    simp only [allCalls, issued]
    exact holds_mapped start opened created wanted p.stages

/-- Clean-up of a Kvm in which only `kvm_fd` has been set. -/
theorem broken_clean {p : Proc} {fd : Int} (fields : p.kvm = { Kvm.zero with kvmFd := fd })
    (owns : Owns (close p.table fd) []) (stdin : .fd 0 ∈ (close p.table fd).live) :
    Broken (miniKvmCleanKvm p) := by
  have closes : miniKvmCleanKvm p = (close p.table fd).release (.fd 0) := by
    simp [miniKvmCleanKvm, fields, Kvm.zero, close]
  rw [closes]
  exact owns.broken stdin (by simp)

/-- Where open or the version of the API fails, `kvm->vm_fd` still is 0, and clean-up closes standard
input. -/
theorem broken_setupKvm {p : Proc} (zero : p.kvm = .zero) (start : Owns p.table [])
    (stdin : .fd 0 ∈ p.table.live) (failed : NoKvm wants)
    (intel : Bool) (memSize : UInt64) :
    Broken (miniKvmCleanKvm (setupKvm wants intel memSize p).2) := by
  obtain ⟨openSign, -, -⟩ := granted_sign p.table wants
  have late (capable : Created (granted p.table wants)) : False := by
    obtain ⟨opened, version, -⟩ := capable
    rcases failed with failed | other
    · omega
    · exact other version
  have cases_ := setup_cases (granted p.table wants) intel memSize
  unfold setupKvm
  generalize miniKvmSetupKvm (granted p.table wants) intel memSize = s at cases_ ⊢
  rw [zero]
  cases cases_ with
  | noDevice failed =>
    have kvmFd : (granted p.table wants .openKvm).val = -1 :=
      granted_openKvm_neg (openSign.mp failed)
    have issued : (results (granted p.table wants) [.openKvm]).foldl acquireFrom p.table =
        p.table := by
      simp only [results, List.map_cons, List.map_nil, List.foldl_cons, List.foldl_nil, kvmFd,
        acquireFrom_failed]
    simp only [issued, kvmFd]
    exact @broken_clean _ (-1) rfl start stdin
  | wrongVersion opened other =>
    have kvmFd : (granted p.table wants .openKvm).val = lowestFd p.table :=
      granted_openKvm (by omega)
    have issued : (results (granted p.table wants) [.openKvm, .getApiVersion]).foldl acquireFrom
        p.table = p.table.acquire (.fd (lowestFd p.table)) := by
      simp only [results, List.map_cons, List.map_nil, List.foldl_cons, List.foldl_nil, kvmFd,
        acquireFrom_openKvm]
      rfl
    have owned := start.acquire (fd_not_mem p.table)
    have closed : close (p.table.acquire (.fd (lowestFd p.table))) (lowestFd p.table) =
        (p.table.acquire (.fd (lowestFd p.table))).release (.fd (lowestFd p.table)) := by
      rw [close, if_neg (by omega), Int.toNat_natCast]
    simp only [issued, kvmFd]
    apply @broken_clean _ (lowestFd p.table) rfl
    · rw [closed]
      exact owned.release
    · rw [closed, Table.live_acquire_release]
      exact stdin
  | noVm opened version _ =>
    rcases failed with failed | other
    · omega
    · exact absurd version other
  | noCap made => exact (late made).elim
  | noMemory capable | noMapping capable | noRegion capable => exact (late capable.toCreated).elim
  | done passes => exact (late passes.toCreated).elim

end Setup

/-! ## mini_kvm_add_vcpu -/

/-- The vcpu is made and added. -/
structure VcpuCalls.Fine (calls : VcpuCalls) : Prop where
  createVcpu : calls.createVcpu = true
  mmapSize : 0 < calls.mmapSize.val
  mmap : calls.mmap = true
  setupVcpu : calls.setupVcpu = .success

theorem owned_addVcpu (kvm : Kvm) (vcpu : VCpu) :
    (ofAddr vcpu.kvmRun ++ (ofFd vcpu.fd ++ kvm.owned)).Perm
      ({ kvm with vcpus := kvm.vcpus ++ [vcpu] } : Kvm).owned := by
  unfold Kvm.owned
  simp only [List.flatMap_append, List.flatMap_cons, List.flatMap_nil, List.append_nil]
  rw [← List.append_assoc]
  exact (List.perm_append_comm_assoc _ _ _).trans (List.append_assoc _ _ _ ▸ .refl _)

section AddVcpu

variable {calls : VcpuCalls} {p : Proc}

theorem addVcpu_frame (calls : VcpuCalls) (p : Proc) :
    (miniKvmAddVcpu calls p).2.kvm.name = p.kvm.name ∧
      (miniKvmAddVcpu calls p).2.stages = p.stages := by
  unfold miniKvmAddVcpu
  dsimp only
  split_ifs <;> exact ⟨rfl, rfl⟩

theorem addVcpu_fine (fine : calls.Fine) (holds : Holds p []) :
    (miniKvmAddVcpu calls p).1 = .success ∧ Holds (miniKvmAddVcpu calls p).2 [] ∧
      (miniKvmAddVcpu calls p).2.kvm.vcpus.length = p.kvm.vcpus.length + 1 ∧
      (miniKvmAddVcpu calls p).2.kvm.name = p.kvm.name := by
  obtain ⟨createVcpu, size, mapped, setup⟩ := fine
  unfold Holds at holds
  rw [List.append_nil] at holds
  have opened := owns_openFd holds true
  have both := owns_mmap opened true
  have fd : ¬ (openFd p.table true).1 < 0 := by simp
  have addr : ¬ (mmap (openFd p.table true).2 true).1 = -1 := by simp
  unfold miniKvmAddVcpu
  simp only [createVcpu, mapped, setup, fd, addr, if_false, not_le.mpr size, ne_eq, not_true,
    true_and]
  refine ⟨?_, by simp⟩
  unfold Holds
  rw [List.append_nil]
  exact both.perm (owned_addVcpu p.kvm ⟨_, _⟩)

/-- Without KVM_CREATE_VCPU nothing is opened. -/
theorem addVcpu_unmade (unmade : calls.createVcpu = false) :
    miniKvmAddVcpu calls p = (.failedVcpuCreation, p) := by
  simp [miniKvmAddVcpu, unmade, openFd]

/-- What fails behind KVM_CREATE_VCPU loses its descriptor. -/
theorem addVcpu_lost (made : calls.createVcpu = true) (bad : ¬ calls.Fine) (holds : Holds p []) :
    (miniKvmAddVcpu calls p).1 = .failedVcpuCreation ∧
      ∃ lost, lost ≠ [] ∧ Holds (miniKvmAddVcpu calls p).2 lost := by
  unfold Holds at holds
  rw [List.append_nil] at holds
  have opened := owns_openFd holds true
  have fd : ¬ (openFd p.table true).1 < 0 := by simp
  have some : ofFd (openFd p.table true).1 ≠ [] := by simp [openFd]
  unfold miniKvmAddVcpu
  simp only [made, fd, if_false]
  by_cases size : calls.mmapSize.val ≤ 0
  · simp only [size, if_true, true_and]
    exact ⟨_, some, opened.perm List.perm_append_comm⟩
  · have both := owns_mmap opened calls.mmap
    rw [← List.append_assoc] at both
    have lost := both.perm List.perm_append_comm
    have more : ofAddr (mmap (openFd p.table true).2 calls.mmap).1 ++ ofFd (openFd p.table true).1 ≠
        [] := List.append_ne_nil_of_right_ne_nil _ some
    simp only [size, if_false]
    by_cases mapped : (mmap (openFd p.table true).2 calls.mmap).1 = -1
    · simp only [mapped, if_true, true_and]
      exact ⟨_, more, lost⟩
    · by_cases setup : calls.setupVcpu = .success
      · exact absurd ⟨made, by omega, by simpa using mapped, setup⟩ bad
      · simp only [mapped, if_false, setup, ne_eq, not_false_eq_true, if_true, true_and]
        exact ⟨_, more, lost⟩

end AddVcpu

/-- How far the loop over the vcpus gets. A vcpu that fails behind KVM_CREATE_VCPU is lost. -/
theorem addVcpus_cases (calls : Nat → VcpuCalls) (count : Nat) {p : Proc} (holds : Holds p []) :
    ((∀ k < count, (calls (p.kvm.vcpus.length + k)).Fine) ∧
        (addVcpus calls count p).1 = .success ∧ Holds (addVcpus calls count p).2 [] ∧
          (addVcpus calls count p).2.kvm.name = p.kvm.name) ∨
      ∃ k < count, (∀ j < k, (calls (p.kvm.vcpus.length + j)).Fine) ∧
        ¬ (calls (p.kvm.vcpus.length + k)).Fine ∧
          (addVcpus calls count p).1 = .failedVcpuCreation ∧
            ∃ lost, Holds (addVcpus calls count p).2 lost ∧
              (lost = [] ↔ (calls (p.kvm.vcpus.length + k)).createVcpu = false) := by
  induction count generalizing p with
  | zero => exact .inl ⟨by simp, rfl, holds, rfl⟩
  | succ count ih =>
    by_cases fine : (calls p.kvm.vcpus.length).Fine
    · obtain ⟨ret, after, grown, name⟩ := addVcpu_fine fine holds
      generalize added : miniKvmAddVcpu (calls p.kvm.vcpus.length) p = r at ret after grown name
      obtain ⟨e, q⟩ := r
      cases ret
      have goes : addVcpus calls (count + 1) p = addVcpus calls count (q.did .addVcpu .success) := by
        rw [addVcpus, added]
      have next (j : Nat) :
          p.kvm.vcpus.length + (j + 1) = (q.did .addVcpu .success).kvm.vcpus.length + j := by
        change q.kvm.vcpus.length = _ at grown
        change _ = q.kvm.vcpus.length + j
        omega
      have shift {k : Nat}
          (all : ∀ j < k, (calls ((q.did .addVcpu .success).kvm.vcpus.length + j)).Fine) :
          ∀ j < k + 1, (calls (p.kvm.vcpus.length + j)).Fine := by
        intro j inside
        cases j with
        | zero => exact fine
        | succ j =>
          rw [next]
          exact all j (by omega)
      rw [goes]
      rcases ih (p := q.did .addVcpu .success) after with
        ⟨all, success, holds, same⟩ | ⟨k, inside, before, bad, failed, lost⟩
      · exact .inl ⟨shift all, success, holds, same.trans name⟩
      · refine .inr ⟨k + 1, by omega, shift before, ?_, failed, ?_⟩
        · rwa [next]
        · rwa [next]
    · refine .inr ⟨0, by omega, by simp, fine, ?_⟩
      cases made : (calls p.kvm.vcpus.length).createVcpu with
      | false =>
        have goes : addVcpus calls (count + 1) p =
            (.failedVcpuCreation, p.did .addVcpu .failedVcpuCreation) := by
          rw [addVcpus, addVcpu_unmade made]
        rw [goes]
        exact ⟨rfl, [], holds, by simp⟩
      | true =>
        obtain ⟨ret, lost, some, after⟩ := addVcpu_lost made fine holds
        generalize added : miniKvmAddVcpu (calls p.kvm.vcpus.length) p = r at ret after
        obtain ⟨e, q⟩ := r
        cases ret
        have goes : addVcpus calls (count + 1) p =
            (.failedVcpuCreation, q.did .addVcpu .failedVcpuCreation) := by
          rw [addVcpus, added]
        rw [goes]
        exact ⟨rfl, lost, after, by simp [some]⟩

theorem live_addVcpu (calls : VcpuCalls) {p : Proc} {r : Resource} (member : r ∈ p.table.live) :
    r ∈ (miniKvmAddVcpu calls p).2.table.live := by
  have opened := live_openFd calls.createVcpu member
  have mapped := live_mmap calls.mmap opened
  unfold miniKvmAddVcpu
  dsimp only
  split_ifs <;> assumption

theorem live_addVcpus (calls : Nat → VcpuCalls) (count : Nat) {p : Proc} {r : Resource}
    (member : r ∈ p.table.live) : r ∈ (addVcpus calls count p).2.table.live := by
  induction count generalizing p with
  | zero => exact member
  | succ count ih =>
    have here := live_addVcpu (calls p.kvm.vcpus.length) member
    rw [addVcpus]
    split
    · next q added =>
      rw [added] at here
      exact ih here
    · next added =>
      rw [added] at here
      exact here

theorem live_acquireFrom {t : Table Resource} {r : Resource} (issued : List (SysCall × Int))
    (member : r ∈ t.live) : r ∈ (issued.foldl acquireFrom t).live := by
  induction issued generalizing t with
  | nil => exact member
  | cons call issued ih =>
    refine ih ?_
    unfold acquireFrom
    split
    · split_ifs
      · exact member
      · exact List.mem_cons_of_mem _ member
    · split_ifs
      · exact member
      · exact List.mem_cons_of_mem _ member
    · split_ifs
      · exact member
      · exact List.mem_cons_of_mem _ member
    · exact member

/-! ## init_filesystem -/

/-- The directory is opened, no process of that name runs, and the pidfile is written. -/
structure FsCalls.Fine (calls : FsCalls) : Prop where
  openDir : calls.openDir = true
  free : ¬ (calls.fsExists = true ∧ calls.oldPidfile = true ∧ calls.running = true)
  newPidfile : calls.newPidfile = true

section Filesystem

variable {calls : FsCalls} {t : Table Resource} {owned : List Resource}

theorem owns_readPidfile (calls : FsCalls) (stdin : .fd 0 ∈ t.live) (owns : Owns t owned) :
    Owns (readPidfile calls t).2 owned ∧
      ((readPidfile calls t).1 = true ↔
        calls.fsExists = true ∧ calls.oldPidfile = true ∧ calls.running = true) := by
  have opened := owns_openFd owns calls.oldPidfile
  have pos := openFd_pos stdin
  unfold readPidfile
  cases calls.fsExists with
  | false => exact ⟨owns, by simp⟩
  | true =>
    cases old : calls.oldPidfile with
    | false => exact ⟨owns, by simp [openFd]⟩
    | true =>
      rw [old] at opened
      simp only [if_true, gt_iff_lt, pos, true_and]
      exact ⟨owns_close opened, trivial⟩

theorem initFilesystem_frame (calls : FsCalls) (p : Proc) :
    (initFilesystem calls p).2.kvm.name = p.kvm.name ∧
      (initFilesystem calls p).2.stages = p.stages := by
  unfold initFilesystem
  dsimp only
  split_ifs <;> exact ⟨rfl, rfl⟩

theorem owns_initFilesystem {p : Proc} (stdin : .fd 0 ∈ p.table.live) (owns : Owns p.table owned) :
    ((initFilesystem calls p).1 = .success ↔ calls.Fine) ∧
      Owns (initFilesystem calls p).2.table (ofFd (initFilesystem calls p).2.kvm.fsFd ++ owned) ∧
        (initFilesystem calls p).2.kvm =
          { p.kvm with fsFd := (initFilesystem calls p).2.kvm.fsFd } := by
  have stdin' := live_openFd calls.openDir (live_openFd calls.rootDir stdin)
  have both := (owns_openFd (owns_openFd owns calls.rootDir) calls.openDir).perm
    (List.perm_append_comm_assoc _ _ _)
  generalize root : openFd p.table calls.rootDir = r at stdin' both
  obtain ⟨rootDirFd, t₁⟩ := r
  generalize dir : openFd t₁ calls.openDir = r at stdin' both
  obtain ⟨fsFd, t₂⟩ := r
  have opened : fsFd < 0 ↔ calls.openDir = false := by
    have := openFd_neg t₁ calls.openDir
    rwa [dir] at this
  obtain ⟨reads, running⟩ := owns_readPidfile calls stdin' both
  generalize old : readPidfile calls t₂ = r at reads running
  obtain ⟨isRunning, t₃⟩ := r
  have written := owns_openFd reads calls.newPidfile
  have wrote := openFd_neg t₃ calls.newPidfile
  generalize new : openFd t₃ calls.newPidfile = r at written wrote
  obtain ⟨pidFile, t₄⟩ := r
  simp only at both reads running written wrote
  simp only [initFilesystem, root, dir, old, new]
  split
  · next failed =>
    refine ⟨?_, owns_close both, rfl⟩
    exact iff_of_false (by simp) fun fine =>
      Bool.false_ne_true ((opened.mp failed).symm.trans fine.openDir)
  · next found =>
    split
    · next busy =>
      refine ⟨?_, owns_close reads, rfl⟩
      exact iff_of_false (by simp) fun fine => fine.free (running.mp busy)
    · next free =>
      split
      · next failed =>
        have nothing : ofFd pidFile = [] := if_pos failed
        rw [nothing] at written
        refine ⟨?_, owns_close written, rfl⟩
        exact iff_of_false (by simp) fun fine =>
          Bool.false_ne_true ((wrote.mp failed).symm.trans fine.newPidfile)
      · next made =>
        refine ⟨iff_of_true rfl ⟨?_, ?_, ?_⟩, owns_close (owns_close written), rfl⟩
        · simpa using fun h => found (opened.mpr h)
        · exact fun busy => free (running.mpr busy)
        · simpa using fun h => made (wrote.mpr h)

end Filesystem

/-- A VM with a name, which may be empty, gets past init_filesystem. -/
def NamedFine (fs : FsCalls) (name : Option (List Char)) : Prop :=
  (∃ c rest, name = some (c :: rest)) → fs.Fine

theorem holds_nameVm {fs : FsCalls} {name : Option (List Char)} {p : Proc} {lost : List Resource}
    (unnamed : p.kvm.name = none) (stdin : .fd 0 ∈ p.table.live) (holds : Holds p lost) :
    ((nameVm fs name p).1 = .success ↔ NamedFine fs name) ∧ Holds (nameVm fs name p).2 lost := by
  match name with
  | none => exact ⟨by simp [nameVm, NamedFine], holds⟩
  | some [] => exact ⟨by simp [nameVm, NamedFine], holds⟩
  | some (c :: rest) =>
    obtain ⟨ret, after, kvm⟩ := @owns_initFilesystem fs _
      { p with kvm := { p.kvm with name := some (c :: rest) } } stdin holds
    have goes : nameVm fs (some (c :: rest)) p =
        ((initFilesystem fs { p with kvm := { p.kvm with name := some (c :: rest) } }).1,
          (initFilesystem fs { p with kvm := { p.kvm with name := some (c :: rest) } }).2.did
            .initFilesystem
            (initFilesystem fs { p with kvm := { p.kvm with name := some (c :: rest) } }).1) := rfl
    rw [goes]
    generalize initFilesystem fs { p with kvm := { p.kvm with name := some (c :: rest) } } = r
      at ret after kvm
    obtain ⟨e, q⟩ := r
    refine ⟨?_, after.perm ?_⟩
    · simpa [NamedFine] using ret
    · -- the directory comes between the vcpus and the memory
      change (ofFd q.kvm.fsFd ++ (p.kvm.owned ++ lost)).Perm (q.kvm.owned ++ lost)
      rw [show q.kvm = _ from kvm]
      simp only [Kvm.owned, unnamed, Option.isSome_none, Option.isSome_some, if_true,
        Bool.false_eq_true, if_false, List.nil_append, List.append_assoc]
      exact List.perm_append_comm_assoc _ _ _

/-! ## The socket and the main loop -/

structure SocketCalls.Fine (calls : SocketCalls) : Prop where
  socket : calls.socket = true
  bind : calls.bind = true
  listen : calls.listen = true

instance (calls : SocketCalls) : Decidable calls.Fine :=
  decidable_of_iff (calls.socket = true ∧ calls.bind = true ∧ calls.listen = true)
    ⟨fun ⟨socket, bind, listen⟩ => ⟨socket, bind, listen⟩,
      fun ⟨socket, bind, listen⟩ => ⟨socket, bind, listen⟩⟩

section MainLoop

variable {t : Table Resource} {owned : List Resource}

theorem createSocket_frame (calls : SocketCalls) (p : Proc) :
    (miniKvmIpcCreateSocket calls p).2.kvm.name = p.kvm.name ∧
      (miniKvmIpcCreateSocket calls p).2.stages = p.stages := by
  unfold miniKvmIpcCreateSocket
  dsimp only
  split_ifs <;> exact ⟨rfl, rfl⟩

theorem socket_fine {calls : SocketCalls} {p : Proc} {lost : List Resource} (fine : calls.Fine)
    (holds : Holds p lost) :
    (miniKvmIpcCreateSocket calls p).1 = .success ∧
      ∃ more, more ≠ [] ∧ Holds (miniKvmIpcCreateSocket calls p).2 more := by
  obtain ⟨socket, bind, listen⟩ := fine
  have opened := owns_openFd holds true
  have fd : ¬ (openFd p.table true).1 < 0 := by simp
  have some : ofFd (openFd p.table true).1 ≠ [] := by simp [openFd]
  unfold miniKvmIpcCreateSocket
  simp only [socket, bind, listen, fd, if_false, not_true, true_and]
  have more : ofFd (openFd p.table true).1 ++ lost ≠ [] := List.append_ne_nil_of_left_ne_nil some _
  exact ⟨_, more, opened.perm (List.perm_append_comm_assoc _ _ _)⟩

theorem socket_bad {calls : SocketCalls} {p : Proc} {lost : List Resource} (bad : ¬ calls.Fine)
    (holds : Holds p lost) :
    (miniKvmIpcCreateSocket calls p).1 = .failedSocketCreation ∧
      Holds (miniKvmIpcCreateSocket calls p).2 lost := by
  have opened := owns_openFd holds calls.socket
  have sock := openFd_neg p.table calls.socket
  generalize made : openFd p.table calls.socket = r at opened sock
  obtain ⟨fd, t⟩ := r
  simp only [miniKvmIpcCreateSocket, made]
  simp only at opened sock
  split
  · next failed =>
    have nothing : ofFd fd = [] := if_pos failed
    rw [nothing] at opened
    exact ⟨rfl, opened⟩
  · next some =>
    split
    · exact ⟨rfl, owns_close opened⟩
    · next bind =>
      split
      · exact ⟨rfl, owns_close opened⟩
      · next listen =>
        have socket : calls.socket = true := by simpa using fun h => some (sock.mpr h)
        exact absurd ⟨socket, by simpa using bind, by simpa using listen⟩ bad

theorem owns_handleCommand (owns : Owns t owned) (served : Served) :
    Owns (handleCommand t served) owned := by
  unfold handleCommand
  split
  · have opened := owns_openFd owns served.stdoutOpens
    dsimp only
    split
    · exact owns_close opened
    · next failed =>
      rw [not_not.mp failed] at opened
      exact opened
  · exact owns

theorem owns_handleCommands (owns : Owns t owned) (commands : List Served) :
    Owns (commands.foldl handleCommand t) owned := by
  induction commands generalizing t with
  | nil => exact owns
  | cons served commands ih => exact ih (owns_handleCommand owns served)

theorem owns_acceptRound (owns : Owns t owned) (accepted : Accepted) :
    ∃ more, Owns (acceptRound t accepted) (more ++ owned) := by
  cases accepted with
  | nobody => exact ⟨[], owns⟩
  | failed => exact ⟨[], owns⟩
  | connection commands =>
    have opened := owns_openFd owns true
    refine ⟨ofFd (openFd t true).1, ?_⟩
    unfold acceptRound
    dsimp only
    split
    · exact owns_handleCommands opened commands
    · exact opened

/-- The main loop opens and does not close. -/
theorem owns_mainLoop (owns : Owns t owned) (state : VMState) (rounds : List Round) :
    ∃ more, Owns (mainLoop state t rounds).2 (more ++ owned) := by
  induction rounds generalizing t state owned with
  | nil => exact ⟨[], owns⟩
  | cons round rounds ih =>
    unfold mainLoop
    split
    · exact ⟨[], owns⟩
    · obtain ⟨here, accepted⟩ := owns_acceptRound owns round.accepted
      obtain ⟨later, rest⟩ := ih accepted (if round.caught then .shutdown else round.state)
      exact ⟨later ++ here, by rwa [List.append_assoc]⟩

end MainLoop

/-- The `kvm->state` that the loop comes to. -/
def loopState : VMState → List Round → VMState
  | state, [] => state
  | state, round :: rounds =>
    if state = .shutdown then state
    else loopState (if round.caught then .shutdown else round.state) rounds

theorem mainLoop_fst (state : VMState) (t : Table Resource) (rounds : List Round) :
    (mainLoop state t rounds).1 = loopState state rounds := by
  induction rounds generalizing state t with
  | nil => rfl
  | cons round rounds ih =>
    unfold mainLoop loopState
    split
    · rfl
    · exact ih _ _

/-- The ends of run_main_loop. Where a socket listens, something is lost. -/
inductive LoopCases (socket : SocketCalls) (start : MiniKVMError) (state : VMState)
    (lost : List Resource) : LoopEnd × Proc → Prop where
  | noSocket (bad : ¬ socket.Fine) (q : Proc) (holds : Holds q lost) :
    LoopCases socket start state lost (.failed .failedSocketCreation, q)
  | noStart (fine : socket.Fine) (failed : start ≠ .success) (q : Proc) (more : List Resource)
    (some : more ≠ []) (holds : Holds q more) : LoopCases socket start state lost (.failed start, q)
  | shutDown (fine : socket.Fine) (started : start = .success) (down : state = .shutdown) (q : Proc)
    (more : List Resource) (some : more ≠ []) (holds : Holds q more) :
    LoopCases socket start state lost (.shutDown, q)
  | serving (fine : socket.Fine) (started : start = .success) (up : state ≠ .shutdown) (q : Proc) :
    LoopCases socket start state lost (.serving, q)

theorem runMainLoop_cases {socket : SocketCalls} {start : MiniKVMError} {first : VMState}
    {rounds : List Round} {p : Proc} {lost : List Resource} (holds : Holds p lost) :
    LoopCases socket start (loopState first rounds) lost
      (runMainLoop socket start first rounds p) := by
  unfold runMainLoop
  by_cases fine : socket.Fine
  · obtain ⟨ret, lost', some, after⟩ := socket_fine fine holds
    generalize miniKvmIpcCreateSocket socket p = r at ret after
    obtain ⟨e, q⟩ := r
    cases ret
    have owned : Owns q.table (q.kvm.owned ++ lost') := after
    by_cases started : start = .success
    · have looped := mainLoop_fst first q.table rounds
      obtain ⟨more, opened⟩ := owns_mainLoop owned first rounds
      have lostMore : more ++ lost' ≠ [] := List.append_ne_nil_of_right_ne_nil _ some
      simp only [started, ne_eq, not_true, if_false, Proc.did, looped]
      by_cases down : loopState first rounds = .shutdown
      · rw [if_pos down]
        exact .shutDown fine rfl down _ _ lostMore
          (opened.perm (List.perm_append_comm_assoc _ _ _))
      · rw [if_neg down]
        exact .serving fine rfl down _
    · simp only [ne_eq, started, not_false_eq_true, if_true]
      exact .noStart fine started _ lost' some owned
  · obtain ⟨ret, after⟩ := socket_bad fine holds
    generalize miniKvmIpcCreateSocket socket p = r at ret after
    obtain ⟨e, q⟩ := r
    cases ret
    exact .noSocket fine _ after

/-! ## The stages up to load_kernel -/

/-- All of them succeed. -/
structure Initialises (calls : RunCalls) (args : MiniKvmRunArgs) : Prop where
  passes : Passes calls.setup (.ofNat args.memSize)
  vcpus : ∀ k < args.vcpu, (calls.vcpu k).Fine
  configurePaging : calls.configurePaging = .success
  loadKernel : calls.loadKernel = .success

/-- Vcpu `k` is the first that cannot be added. -/
structure StopsAt (calls : Nat → VcpuCalls) (count k : Nat) : Prop where
  inside : k < count
  before : ∀ j < k, (calls j).Fine
  bad : ¬ (calls k).Fine

inductive InitCases (calls : RunCalls) (args : MiniKvmRunArgs) : MiniKVMError × Proc → Prop where
  | noKvm (failed : NoKvm calls.setup) (e : MiniKVMError) (error : e ≠ .success) (q : Proc)
    (broken : Broken (miniKvmCleanKvm q)) : InitCases calls args (e, q)
  | noVm (kvm : ¬ NoKvm calls.setup) (bad : ¬ Passes calls.setup (.ofNat args.memSize))
    (e : MiniKVMError) (error : e ≠ .success) (q : Proc) (holds : Holds q []) :
    InitCases calls args (e, q)
  | noVcpu (passes : Passes calls.setup (.ofNat args.memSize)) (k : Nat)
    (stops : StopsAt calls.vcpu args.vcpu k) (q : Proc) (lost : List Resource) (holds : Holds q lost)
    (unmade : lost = [] ↔ (calls.vcpu k).createVcpu = false) :
    InitCases calls args (.failedVcpuCreation, q)
  | notLoaded (passes : Passes calls.setup (.ofNat args.memSize))
    (vcpus : ∀ k < args.vcpu, (calls.vcpu k).Fine)
    (failed : calls.configurePaging ≠ .success ∨ calls.loadKernel ≠ .success)
    (e : MiniKVMError) (error : e ≠ .success) (q : Proc) (holds : Holds q []) :
    InitCases calls args (e, q)
  | done (initialises : Initialises calls args) (q : Proc) (unnamed : q.kvm.name = none)
    (stdin : .fd 0 ∈ q.table.live) (holds : Holds q []) : InitCases calls args (.success, q)

theorem setupKvm_success_iff {wants : SysCall → Answer} {intel : Bool} {memSize : UInt64} {p : Proc} :
    (setupKvm wants intel memSize p).1 = .success ↔ Passes wants memSize :=
  success_iff_passes.trans passes_granted

theorem initialise_cases (calls : RunCalls) (args : MiniKvmRunArgs) {p : Proc} (zero : p.kvm = .zero)
    (start : Owns p.table []) (stdin : .fd 0 ∈ p.table.live) :
    InitCases calls args (initialise calls args p) := by
  have success : (setupKvm calls.setup calls.intel (.ofNat args.memSize) p).1 = .success ↔
      Passes calls.setup (.ofNat args.memSize) := setupKvm_success_iff
  have live : .fd 0 ∈ (setupKvm calls.setup calls.intel (.ofNat args.memSize) p).2.table.live :=
    live_acquireFrom _ stdin
  have fields : (setupKvm calls.setup calls.intel (.ofNat args.memSize) p).2.kvm.name = none ∧
      (setupKvm calls.setup calls.intel (.ofNat args.memSize) p).2.kvm.vcpus = [] := by
    simp [setupKvm, zero, Kvm.zero]
  have broken (kvm : NoKvm calls.setup) :=
    broken_setupKvm zero start stdin kvm calls.intel (.ofNat args.memSize)
  have holds (kvm : ¬ NoKvm calls.setup) :=
    holds_setupKvm zero start kvm calls.intel (.ofNat args.memSize)
  unfold initialise
  generalize setupKvm calls.setup calls.intel (.ofNat args.memSize) p = r
    at success live fields broken holds
  obtain ⟨e, q⟩ := r
  split
  · next q' made =>
    cases made
    have passes := success.mp rfl
    obtain ⟨unnamed, noVcpus⟩ := fields
    have added := @addVcpus_cases calls.vcpu args.vcpu (q.did .setupKvm .success)
      (holds (not_noKvm_of_passes passes))
    have live := live_addVcpus calls.vcpu args.vcpu (p := q.did .setupKvm .success) live
    have none : (q.did .setupKvm .success).kvm.vcpus.length = 0 := by
      change q.kvm.vcpus.length = 0
      rw [show q.kvm.vcpus = [] from noVcpus]
      rfl
    simp only [none, Nat.zero_add] at added
    generalize addVcpus calls.vcpu args.vcpu (q.did .setupKvm .success) = r at added live
    obtain ⟨e, q'⟩ := r
    rcases added with ⟨fine, ret, holds, name⟩ | ⟨k, inside, before, bad, ret, lost, holds, unmade⟩
    · cases ret
      by_cases paging : calls.configurePaging = .success
      · simp only [paging, ne_eq, not_true, if_false]
        by_cases load : calls.loadKernel = .success
        · rw [load]
          exact .done ⟨passes, fine, paging, load⟩ _ (name.trans unnamed) live holds
        · exact .notLoaded passes fine (.inr load) _ load _ holds
      · simp only [ne_eq, paging, not_false_eq_true, if_true]
        exact .notLoaded passes fine (.inl paging) _ paging _ holds
    · cases ret
      exact .noVcpu passes k ⟨inside, before, bad⟩ q' lost holds unmade
  · next e' q' failed made =>
    cases made
    have error : e ≠ .success := failed
    by_cases kvm : NoKvm calls.setup
    · exact .noKvm kvm e error _ (broken kvm)
    · exact .noVm kvm (fun passes => error (success.mpr passes)) e error _ (holds kvm)

/-! ## mini_kvm_run -/

/-- The ends of a run whose kernel is loaded. -/
inductive ServeCases (calls : RunCalls) (args : MiniKvmRunArgs) : Run → Prop where
  | noFilesystem (bad : ¬ NamedFine calls.fs args.name) (q : Proc) (holds : Holds q []) :
    ServeCases calls args ⟨.returned 0, q.cleaned, false⟩
  | noSocket (named : NamedFine calls.fs args.name) (name : args.name ≠ some [])
    (bad : ¬ calls.socket.Fine) (q : Proc) (holds : Holds q []) :
    ServeCases calls args ⟨.returned 0, q.cleaned, false⟩
  | noStart (named : NamedFine calls.fs args.name) (name : args.name ≠ some [])
    (fine : calls.socket.Fine) (failed : calls.start ≠ .success) (q : Proc) (more : List Resource)
    (some : more ≠ []) (holds : Holds q more) :
    ServeCases calls args ⟨.returned 0, q.cleaned, false⟩
  | shutDown (named : NamedFine calls.fs args.name) (name : args.name ≠ some [])
    (fine : calls.socket.Fine) (started : calls.start = .success)
    (down : loopState calls.first calls.rounds = .shutdown) (q : Proc) (more : List Resource)
    (some : more ≠ []) (holds : Holds q more) :
    ServeCases calls args ⟨.returned 0, q.cleaned, true⟩
  | serving (named : NamedFine calls.fs args.name) (fine : calls.socket.Fine)
    (started : calls.start = .success) (up : loopState calls.first calls.rounds ≠ .shutdown)
    (q : Proc) : ServeCases calls args ⟨.serving, q, false⟩
  | crashed (name : args.name = some []) (q : Proc) (shutDown : Bool) :
    ServeCases calls args ⟨.crashed, q, shutDown⟩

theorem serve_cases (calls : RunCalls) (args : MiniKvmRunArgs) {p : Proc} (unnamed : p.kvm.name = none)
    (stdin : .fd 0 ∈ p.table.live) (holds : Holds p []) :
    ServeCases calls args (serve calls args p) := by
  obtain ⟨success, after⟩ := @holds_nameVm calls.fs args.name _ _ unnamed stdin holds
  unfold serve
  generalize nameVm calls.fs args.name p = r at success after
  obtain ⟨e, q⟩ := r
  split
  · next q' made =>
    cases made
    have named := success.mp rfl
    have loop : LoopCases calls.socket calls.start (loopState calls.first calls.rounds) []
        (runMainLoop calls.socket calls.start calls.first calls.rounds q) := runMainLoop_cases after
    generalize runMainLoop calls.socket calls.start calls.first calls.rounds q = r at loop
    cases loop with
    | serving fine started up q' => exact .serving named fine started up q'
    | noSocket bad q' holds =>
      simp only
      split
      · next name => exact .crashed name _ _
      · next name => exact .noSocket named name bad q' holds
    | noStart fine failed q' more some holds =>
      simp only
      split
      · next name => exact .crashed name _ _
      · next name => exact .noStart named name fine failed q' more some holds
    | shutDown fine started down q' more some holds =>
      simp only
      split
      · next name => exact .crashed name _ _
      · next name => exact .shutDown named name fine started down q' more some holds
  · next failed made =>
    cases made
    exact .noFilesystem (fun named => failed (success.mpr named)) _ after

/-- Where mini_kvm_run starts from once the options are read. -/
def Proc.parsed (calls : RunCalls) : Proc :=
  { Proc.start with stages := [(.parseArgs, calls.parse)] }

/-- The ends of a run, by the part that it gets to. -/
inductive RunCases (calls : RunCalls) (args : MiniKvmRunArgs) : Run → Prop where
  | unparsed (failed : calls.parse ≠ 0) :
    RunCases calls args ⟨.returned calls.parse, .parsed calls, false⟩
  | noMemory (parsed : calls.parse = 0) (failed : calls.calloc = false) :
    RunCases calls args ⟨.returned MiniKVMError.failedAllocation.code, .parsed calls, false⟩
  | notInitialised (parsed : calls.parse = 0) (calloc : calls.calloc = true) (e : MiniKVMError)
    (error : e ≠ .success) (q : Proc) (init : InitCases calls args (e, q)) :
    RunCases calls args ⟨.returned e.code, q.cleaned, false⟩
  | served (parsed : calls.parse = 0) (calloc : calls.calloc = true)
    (initialises : Initialises calls args) (q : Proc)
    (init : initialise calls args (.parsed calls) = (.success, q))
    (ends : ServeCases calls args (serve calls args q)) : RunCases calls args (serve calls args q)

theorem run_cases (calls : RunCalls) (args : MiniKvmRunArgs) :
    RunCases calls args (miniKvmRun calls args) := by
  unfold miniKvmRun
  dsimp only
  split
  · next failed => exact .unparsed failed
  · next parsed =>
    have parsed : calls.parse = 0 := not_not.mp parsed
    split
    · next failed => exact .noMemory parsed (Bool.eq_false_iff.mpr failed)
    · next calloc =>
      have calloc : calls.calloc = true := not_not.mp calloc
      have init : InitCases calls args (initialise calls args (.parsed calls)) :=
        initialise_cases calls args rfl (owns_start _) List.mem_cons_self
      split
      · next q made =>
        change initialise calls args (.parsed calls) = _ at made
        rw [made] at init
        cases init with
        | done initialises _ unnamed stdin holds =>
          exact .served parsed calloc initialises q made (serve_cases calls args unnamed stdin holds)
        | noKvm _ _ error | noVm _ _ _ error | notLoaded _ _ _ _ error => exact absurd rfl error
      · next e q failed made =>
        change initialise calls args (.parsed calls) = _ at made
        rw [made] at init
        exact .notInitialised parsed calloc e failed q init

end MiniKvm.Source.RunStages
