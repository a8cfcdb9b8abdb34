import MiniKvm.Source.SetupKvm

/-!
# A set-up that succeeds

What success of mini_kvm_setup_kvm says of the virtual machine. Three tests let a failure through:
KVM_CHECK_EXTENSION reports a missing capability by 0, the two ioctls for Intel stand before a comma,
and those of kvm_setup_irq are compared with `< -1`.
-/
namespace MiniKvm.Guarantees.UsableVm
open Source Source.SetupKvm

variable {answers : SysCall → Answer} {intel : Bool} {memSize : UInt64}

/-- Every capability is there, and no ioctl has failed. -/
structure Usable (s : Setup) : Prop where
  caps : ∀ cap ∈ miniKvmCaps, ∃ r, (.checkExtension cap, r) ∈ s.issued ∧ 0 < r
  ioctls : ∀ call r, (call, r) ∈ s.issued → call.isIoctl = true → r ≠ -1

/-- What the tests do not see is well. -/
structure UntestedFine (answers : SysCall → Answer) (intel : Bool) : Prop where
  caps : ∀ cap ∈ miniKvmCaps, (answers (.checkExtension cap)).val ≠ 0
  addrs : intel = true →
    (answers .setTssAddr).val ≠ -1 ∧ (answers .setIdentityMapAddr).val ≠ -1
  createIrqchip : (answers .createIrqchip).val ≠ -1
  createPit2 : (answers .createPit2).val ≠ -1

theorem mem_results {calls : List SysCall} {call : SysCall} {r : Int} :
    (call, r) ∈ results answers calls ↔ call ∈ calls ∧ r = (answers call).val := by
  simp only [results, List.mem_map, Prod.mk.injEq]
  constructor
  · rintro ⟨c, member, rfl, rfl⟩
    exact ⟨member, rfl⟩
  · rintro ⟨member, rfl⟩
    exact ⟨call, member, rfl, rfl⟩

theorem mem_allCalls {call : SysCall} : call ∈ allCalls intel ↔
    (call = .setTssAddr ∨ call = .setIdentityMapAddr → intel = true) := by
  cases call with
  | checkExtension cap => cases cap <;> cases intel <;> decide
  | _ => cases intel <;> decide

/-- The calls of a set-up that succeeds leave a usable machine exactly where what is not tested is
well. -/
theorem usable_iff_of_passes (passes : Passes answers memSize) :
    Usable (miniKvmSetupKvm answers intel memSize) ↔ UntestedFine answers intel := by
  have issued : (miniKvmSetupKvm answers intel memSize).issued = results answers (allCalls intel) :=
    issued_of_passes passes
  constructor
  · rintro ⟨caps, ioctls⟩
    rw [issued] at caps ioctls
    have fine (call : SysCall) (made : call ∈ allCalls intel) (isIoctl : call.isIoctl = true) :
        (answers call).val ≠ -1 :=
      ioctls call _ (mem_results.mpr ⟨made, rfl⟩) isIoctl
    refine ⟨?_, ?_, fine _ (mem_allCalls.mpr (by simp)) rfl, fine _ (mem_allCalls.mpr (by simp)) rfl⟩
    · intro cap member
      obtain ⟨r, here, present⟩ := caps cap member
      obtain ⟨-, rfl⟩ := mem_results.mp here
      omega
    · intro isIntel
      exact ⟨fine _ (mem_allCalls.mpr fun _ => isIntel) rfl,
        fine _ (mem_allCalls.mpr fun _ => isIntel) rfl⟩
  · rintro ⟨caps, addrs, irqchip, pit2⟩
    constructor
    · intro cap member
      have reported := passes.caps cap member
      have present := caps cap member
      rw [issued]
      exact ⟨_, mem_results.mpr ⟨mem_allCalls.mpr (by simp), rfl⟩, by omega⟩
    · intro call r here isIoctl
      rw [issued] at here
      obtain ⟨made, rfl⟩ := mem_results.mp here
      have ifIntel := mem_allCalls.mp made
      cases call with
      | openKvm | mmap => cases isIoctl
      | getApiVersion =>
        rw [passes.apiVersion]
        decide
      | createVm =>
        have := passes.createVm
        omega
      | checkExtension cap =>
        have := passes.caps cap (by cases cap <;> decide)
        omega
      | setTssAddr => exact (addrs (ifIntel (.inl rfl))).1
      | setIdentityMapAddr => exact (addrs (ifIntel (.inr rfl))).2
      | setUserMemoryRegion =>
        have := passes.setUserMemoryRegion
        omega
      | createIrqchip => exact irqchip
      | createPit2 => exact pit2

/-- A set-up that succeeds leaves a usable machine, exactly where what is not tested is well whenever
all that is tested succeeds. -/
theorem setup_success_usable_iff (answers : SysCall → Answer) (intel : Bool) (memSize : UInt64) :
    ((miniKvmSetupKvm answers intel memSize).ret = .success →
        Usable (miniKvmSetupKvm answers intel memSize)) ↔
      (Passes answers memSize → UntestedFine answers intel) := by
  rw [success_iff_passes]
  constructor
  · intro usable passes
    exact (usable_iff_of_passes passes).mp (usable passes)
  · intro fine passes
    exact (usable_iff_of_passes passes).mpr (fine passes)

/-- A host on which only the interrupt controller cannot be made. -/
def noIrqchip : SysCall → Answer
  | .openKvm => Answer.of 3
  | .getApiVersion => Answer.of 12
  | .createVm => Answer.of 4
  | .checkExtension _ => Answer.of 1
  | .createIrqchip => Answer.failed
  | .mmap => Answer.of 0x7f0000000000
  | _ => Answer.of 0

theorem noIrqchip_success :
    (miniKvmSetupKvm noIrqchip false 0x100000).ret = .success ∧
      ¬ Usable (miniKvmSetupKvm noIrqchip false 0x100000) := by
  refine ⟨by decide, fun usable => ?_⟩
  exact usable.ioctls .createIrqchip (-1) (by decide) rfl rfl

end MiniKvm.Guarantees.UsableVm
