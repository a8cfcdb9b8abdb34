import MiniKvm.Source.Boot

/-!
# Does the boot vcpu start on mapped memory?

The boot page tables map the first 2 MiB, whatever the size of the memory is, and the stack starts at
the top of the memory.
-/
namespace MiniKvm.Guarantees.BootMapping
open Lib Lib.PageWalk Source Source.Boot

/-- The walk from CR3 finds an address inside guest memory. -/
def Mapped (kvm : Kvm) (va : Nat) : Prop :=
  ∃ t, walk kvm.mem kvm.vcpu.loadedSregs.cr3.toNat va = some t ∧ (t.phys : Int) < kvm.memSize.toInt

/-- The first instruction and the first slot of the stack are mapped. -/
structure BootsMapped (kvm : Kvm) : Prop where
  rip : Mapped kvm kvm.vcpu.loadedRegs.rip.toNat
  stack : ∀ va, kvm.vcpu.loadedRegs.rsp.toNat - 8 ≤ va → va < kvm.vcpu.loadedRegs.rsp.toNat →
    Mapped kvm va

variable {ioctls : Ioctls} {setSregs : Bool} {memSize : Int64} {mem : ByteMem} {vcpu vcpu' : VCpu}
  {kvm : Kvm}

/-- The boot of a VM, up to the first instruction. -/
structure Booted (ioctls : Ioctls) (setSregs : Bool) (memSize : Int64) (mem : ByteMem)
    (vcpu vcpu' : VCpu) (kvm : Kvm) : Prop where
  setup : miniKvmSetupVcpu ioctls memSize vcpu bootloaderAddr = (.success, vcpu')
  paging : miniKvmConfigurePaging setSregs ⟨memSize, mem, vcpu'⟩ = (.success, kvm)

theorem stack_top (enough : minimumMemoryRequired ≤ memSize) :
    ((memSize - 1).toUInt64.toNat : Int) = memSize.toInt - 1 := by
  have least : (0x5000 : Int) ≤ memSize.toInt := Int64.le_iff_toInt_le.mp enough
  have one : (1 : Int64) ≤ memSize := Int64.le_iff_toInt_le.mpr (by
    rw [show (1 : Int64).toInt = 1 by decide]
    omega)
  have below : (memSize - 1).toInt = memSize.toInt - 1 :=
    Int64.toInt_sub_of_le memSize 1 (by decide) one
  have positive : (0 : Int64) ≤ memSize - 1 := Int64.le_iff_toInt_le.mpr (by
    rw [below, show (0 : Int64).toInt = 0 by decide]
    omega)
  rw [Int64.toNat_toUInt64_of_le positive, ← Int64.toNat_toInt, below]
  omega

theorem mapped_iff (booted : Booted ioctls setSregs memSize mem vcpu vcpu' kvm) (va : Nat) :
    Mapped kvm va ↔ va < 2 ^ 21 ∧ (va : Int) < memSize.toInt := by
  obtain ⟨pages, size, cr3, -⟩ := miniKvmConfigurePaging_success booted.paging
  rw [Mapped, cr3, size, walk_kvmSetupPages pages]
  simp

/-- A boot starts on mapped memory exactly where the memory is not larger than the one page that is
mapped. -/
theorem bootsMapped_iff (booted : Booted ioctls setSregs memSize mem vcpu vcpu' kvm)
    (pages : memSize.toInt % pageSize = 0) : BootsMapped kvm ↔ memSize.toInt ≤ 0x200000 := by
  obtain ⟨setup, -, -, regs⟩ := miniKvmConfigurePaging_success booted.paging
  have enough : minimumMemoryRequired ≤ memSize := (kvmSetupPages_success setup).1
  have top := stack_top enough
  have least : (0x5000 : Int) ≤ memSize.toInt := Int64.le_iff_toInt_le.mp enough
  have rip : kvm.vcpu.loadedRegs.rip.toNat = 0x4000 := by
    rw [regs, miniKvmSetupVcpu_success booted.setup]
    rfl
  have rsp : kvm.vcpu.loadedRegs.rsp.toNat = (memSize - 1).toUInt64.toNat := by
    rw [regs, miniKvmSetupVcpu_success booted.setup]
    rfl
  rw [show (pageSize : Int) = 4096 from rfl] at pages
  constructor
  · rintro ⟨-, stack⟩
    have last := stack ((memSize - 1).toUInt64.toNat - 1) (by omega) (by omega)
    have := ((mapped_iff booted _).mp last).1
    omega
  · intro small
    constructor
    · rw [mapped_iff booted, rip]
      omega
    · intro va _ below
      rw [mapped_iff booted]
      omega

/-! ## Two sizes -/

def allSucceed : Ioctls := ⟨true, true, true, true, true⟩

def bootedVcpu (memSize : Int64) : VCpu :=
  (miniKvmSetupVcpu allSucceed memSize default bootloaderAddr).2

def bootedKvm (memSize : Int64) : Kvm :=
  (miniKvmConfigurePaging true ⟨memSize, fun _ => 0, bootedVcpu memSize⟩).2

theorem booted_twoMegabytes : Booted allSucceed true 0x200000 (fun _ => 0) default
    (bootedVcpu 0x200000) (bootedKvm 0x200000) :=
  ⟨rfl, rfl⟩

theorem twoMegabytes_bootsMapped : BootsMapped (bootedKvm 0x200000) :=
  (bootsMapped_iff booted_twoMegabytes (by decide)).mpr (by decide)

theorem booted_fourMegabytes : Booted allSucceed true 0x400000 (fun _ => 0) default
    (bootedVcpu 0x400000) (bootedKvm 0x400000) :=
  ⟨rfl, rfl⟩

/-- With 4 MiB of memory the top of the stack is not mapped. -/
theorem fourMegabytes_not_bootsMapped : ¬ ∀ (ioctls : Ioctls) (setSregs : Bool) (memSize : Int64)
    (mem : ByteMem) (vcpu vcpu' : VCpu) (kvm : Kvm),
    Booted ioctls setSregs memSize mem vcpu vcpu' kvm → memSize.toInt % pageSize = 0 →
    BootsMapped kvm := by
  intro claimed
  have boots := claimed _ _ _ _ _ _ _ booted_fourMegabytes (by decide)
  have rsp : (bootedKvm 0x400000).vcpu.loadedRegs.rsp.toNat = 0x3fffff := by decide
  have last := boots.stack 0x3ffffe (by omega) (by omega)
  have low := ((mapped_iff booted_fourMegabytes _).mp last).1
  omega

end MiniKvm.Guarantees.BootMapping
