import MiniKvm.Source.Launch

/-!
# Does loading stay inside guest memory?

load_kernel copies `args->kernel_size` bytes to `BOOTLOADER_ADDR` and never looks at `kvm->mem_size`.
The page tables only make sure of the page at `BOOTLOADER_ADDR`.
-/
namespace MiniKvm.Guarantees.KernelLoading
open Lib Source Source.Boot Source.Launch Source.RunArgs

/-- The size next to a kernel is its length, as option -k leaves them. -/
def WholeKernel (args : MiniKvmRunArgs) : Prop :=
  ∀ code, args.kernelCode = some code → args.kernelSize = code.length

/-- A load that is refused leaves guest memory alone; and one that is not stores between
`BOOTLOADER_ADDR` and the end of guest memory only, and leaves the whole kernel there. -/
structure LoadsInside (kvm : Kvm) (args : MiniKvmRunArgs) (loaded : Loaded) : Prop where
  refused : loaded.ret ≠ .success → loaded.mem = kvm.mem ∧ loaded.stores = []
  inside : ∀ a ∈ loaded.stores, bootloaderAddr.toNat ≤ a ∧ (a : Int) < kvm.memSize.toInt
  whole : loaded.ret = .success → ∃ code, args.kernelCode = some code ∧
    ∀ (i : Nat) (inside : i < code.length),
      ((bootloaderAddr.toNat + i : Nat) : Int) < kvm.memSize.toInt ∧
        loaded.mem (bootloaderAddr.toNat + i) = code[i]

/-- No kernel, an empty one, or one that fits between `BOOTLOADER_ADDR` and the size asked for. -/
def Fits (args : MiniKvmRunArgs) : Prop :=
  args.kernelCode = none ∨ args.kernelSize = 0 ∨
    bootloaderAddr.toNat + args.kernelSize ≤ (UInt64.ofNat args.memSize).toNat

instance (args : MiniKvmRunArgs) : Decidable (Fits args) :=
  inferInstanceAs (Decidable (_ ∨ _ ∨ _))

variable {mem : ByteMem} {args : MiniKvmRunArgs} {code : List UInt8}

/-! ## load_kernel -/

theorem loadKernel_refuses (addr : UInt64)
    (empty : args.kernelCode = none ∨ args.kernelSize = 0) :
    loadKernel mem args addr = ⟨.internalError, mem, []⟩ := by
  unfold loadKernel
  split
  · rfl
  · next kernel =>
    rcases empty with absent | zero
    · rw [absent] at kernel
      cases kernel
    · rw [if_pos zero]

theorem loadKernel_copies (addr : UInt64) (kernel : args.kernelCode = some code)
    (size : args.kernelSize = code.length) (full : args.kernelSize ≠ 0) :
    loadKernel mem args addr =
      ⟨.success, mem.copy addr.toNat code, (List.range code.length).map (addr.toNat + ·)⟩ := by
  simp only [loadKernel, kernel, if_neg full]
  rw [size, List.take_length]

/-- Guest memory changes where load_kernel stores, and nowhere else. -/
theorem loadKernel_frame (addr : UInt64) {a : Nat} (unstored : a ∉ (loadKernel mem args addr).stores) :
    (loadKernel mem args addr).mem a = mem a := by
  unfold loadKernel at unstored ⊢
  split at unstored
  · rfl
  · next code kernel =>
    split at unstored
    · next zero => rw [if_pos zero]
    · next full =>
      rw [if_neg full]
      by_cases low : a < addr.toNat
      · exact ByteMem.copy_of_lt low
      · refine ByteMem.copy_of_le ?_
        by_contra inside
        refine unstored (List.mem_map.mpr ⟨a - addr.toNat, ?_, by omega⟩)
        simp only [List.length_take] at inside
        exact List.mem_range.mpr (by omega)

/-! ## With mini_kvm_run -/

/-- Guest memory has the size that was asked for, where mini_kvm_run reaches load_kernel. -/
theorem memSize_of_prepare {calls : RunCalls} {kvm : Kvm} (reached : prepare calls args = .ok kvm) :
    kvm.memSize.toInt = (UInt64.ofNat args.memSize).toNat := by
  obtain ⟨size, enough⟩ := prepare_ok reached
  have least : (0x5000 : Int) ≤ kvm.memSize.toInt := Int64.le_iff_toInt_le.mp enough
  have positive : (0 : Int64) ≤ kvm.memSize := Int64.le_iff_toInt_le.mpr (by
    rw [show (0 : Int64).toInt = 0 by decide]
    omega)
  have back : kvm.memSize.toUInt64.toNat = (UInt64.ofNat args.memSize).toNat := by
    rw [size, UInt64.toUInt64_toInt64]
  rw [Int64.toNat_toUInt64_of_le positive, ← Int64.toNat_toInt] at back
  omega

theorem loadsInside_of_fits {kvm : Kvm} (whole : WholeKernel args)
    (fits : args.kernelCode = none ∨ args.kernelSize = 0 ∨
      ((bootloaderAddr.toNat + args.kernelSize : Nat) : Int) ≤ kvm.memSize.toInt) :
    LoadsInside kvm args (loadKernel kvm.mem args bootloaderAddr) := by
  by_cases empty : args.kernelCode = none ∨ args.kernelSize = 0
  · rw [loadKernel_refuses bootloaderAddr empty]
    exact ⟨fun _ => ⟨rfl, rfl⟩, by simp, fun success => by cases success⟩
  · rw [not_or] at empty
    obtain ⟨code, kernel⟩ := Option.ne_none_iff_exists'.mp empty.1
    have size := whole code kernel
    have bound : ((bootloaderAddr.toNat + code.length : Nat) : Int) ≤ kvm.memSize.toInt := by
      rcases fits with absent | zero | fits
      · exact absurd absent empty.1
      · exact absurd zero empty.2
      · rwa [← size]
    rw [loadKernel_copies bootloaderAddr kernel size empty.2]
    refine ⟨fun refused => absurd rfl refused, fun a stored => ?_, fun _ => ⟨code, kernel, ?_⟩⟩
    · obtain ⟨i, inside, rfl⟩ := List.mem_map.mp stored
      have := List.mem_range.mp inside
      omega
    · intro i inside
      exact ⟨by omega, ByteMem.copy_inside inside⟩

/-- The byte behind guest memory is stored to where the kernel does not fit. -/
theorem fits_of_loadsInside {kvm : Kvm} (whole : WholeKernel args)
    (loads : LoadsInside kvm args (loadKernel kvm.mem args bootloaderAddr)) :
    args.kernelCode = none ∨ args.kernelSize = 0 ∨
      ((bootloaderAddr.toNat + args.kernelSize : Nat) : Int) ≤ kvm.memSize.toInt := by
  by_contra unfit
  simp only [not_or] at unfit
  obtain ⟨present, full, large⟩ := unfit
  obtain ⟨code, kernel⟩ := Option.ne_none_iff_exists'.mp present
  have size := whole code kernel
  rw [loadKernel_copies bootloaderAddr kernel size full] at loads
  have last := (loads.inside (bootloaderAddr.toNat + (code.length - 1))
    (List.mem_map.mpr ⟨code.length - 1, List.mem_range.mpr (by omega), rfl⟩)).2
  omega

/-- Where mini_kvm_run reaches load_kernel, loading stays inside guest memory exactly where the
kernel is refused or fits behind `BOOTLOADER_ADDR`. -/
theorem loadsInside_iff_fits (calls : RunCalls) (args : MiniKvmRunArgs) (kvm : Kvm)
    (whole : WholeKernel args) (reached : prepare calls args = .ok kvm) :
    LoadsInside kvm args (loadKernel kvm.mem args bootloaderAddr) ↔ Fits args := by
  have size := memSize_of_prepare reached
  have same : Fits args ↔ args.kernelCode = none ∨ args.kernelSize = 0 ∨
      ((bootloaderAddr.toNat + args.kernelSize : Nat) : Int) ≤ kvm.memSize.toInt := by
    rw [Fits, size, Nat.cast_le]
  rw [same]
  exact ⟨fits_of_loadsInside whole, loadsInside_of_fits whole⟩

/-! ## Two kernels -/

def allSucceed : RunCalls where
  setup := ⟨true, true, true, true, true, true⟩
  vcpu := fun _ => ⟨true, true, true, ⟨true, true, true, true, true⟩, default⟩
  setSregs := true

/-- The options -m 20480 and -k with a file of `size` bytes. -/
def leastMemory (size : Nat) : MiniKvmRunArgs :=
  ⟨none, false, 1, 0x5000, size, some (List.replicate size 0xf4)⟩

theorem leastMemory_wholeKernel (size : Nat) : WholeKernel (leastMemory size) := by
  intro code kernel
  cases kernel
  exact List.length_replicate.symm

/-- The set-up does not look at the kernel. -/
theorem leastMemory_prepare (size : Nat) :
    ∃ kvm, prepare allSucceed (leastMemory size) = .ok kvm := by
  have setup : miniKvmSetupKvm allSucceed.setup (.ofNat 0x5000) =
      .ok ⟨0x5000, fun _ => 0, []⟩ := rfl
  have added : addVcpus allSucceed.vcpu 1 ⟨0x5000, fun _ => 0, []⟩ = .ok ⟨0x5000, fun _ => 0,
      [(miniKvmSetupVcpu ⟨true, true, true, true, true⟩ 0x5000 default bootloaderAddr).2]⟩ := rfl
  simp only [prepare, leastMemory, setup, added]
  exact exists_configurePaging (by decide)

theorem onePage_loadsInside : ∃ kvm, prepare allSucceed (leastMemory 0x1000) = .ok kvm ∧
    LoadsInside kvm (leastMemory 0x1000)
      (loadKernel kvm.mem (leastMemory 0x1000) bootloaderAddr) := by
  obtain ⟨kvm, reached⟩ := leastMemory_prepare 0x1000
  refine ⟨kvm, reached, ?_⟩
  exact (loadsInside_iff_fits allSucceed (leastMemory 0x1000) kvm (leastMemory_wholeKernel _)
    reached).mpr (.inr (.inr (by decide)))

/-- With 20 KiB of memory a kernel of one byte more than a page is written past the end. -/
theorem onePageAndAByte_not_loadsInside : ¬ ∀ (calls : RunCalls) (args : MiniKvmRunArgs) (kvm : Kvm),
    WholeKernel args → prepare calls args = .ok kvm →
    LoadsInside kvm args (loadKernel kvm.mem args bootloaderAddr) := by
  intro claimed
  obtain ⟨kvm, reached⟩ := leastMemory_prepare 0x1001
  have loads := claimed _ _ kvm (leastMemory_wholeKernel _) reached
  have size := memSize_of_prepare reached
  rcases fits_of_loadsInside (leastMemory_wholeKernel _) loads with absent | zero | fits
  · cases absent
  · cases zero
  · rw [size] at fits
    exact absurd fits (by decide)

end MiniKvm.Guarantees.KernelLoading
