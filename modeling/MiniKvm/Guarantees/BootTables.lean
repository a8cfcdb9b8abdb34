import MiniKvm.Source.Launch

/-!
# What do the boot page tables map?

kvm_setup_pages writes three tables with one entry each, and load_kernel copies the kernel behind
them. The tables are read with the walk of the processor, over all addresses of 48 bits.
-/
namespace MiniKvm.Guarantees.BootTables
open Lib Lib.PageWalk Source Source.Boot Source.Launch Source.RunArgs

/-- The walk from `PLM4_ADDR`, on an address of 48 bits. -/
def translate (mem : ByteMem) (va : Nat) : Option Translation :=
  walkFrom mem va 3 (address 12 plm4Addr.toNat) true

/-- The low 2 MiB are mapped to themselves, for writing, and no other address is mapped. -/
def IdentityMapped (mem : ByteMem) : Prop :=
  ∀ va < 2 ^ 48, translate mem va = if va < 0x200000 then some ⟨va, true⟩ else none

/-- The bytes of a kernel are found in guest memory, at its virtual addresses below 2 MiB. -/
def FoundMapped (memSize : Int64) (mem : ByteMem) (code : List UInt8) : Prop :=
  ∀ (i : Nat) (inside : i < code.length), bootloaderAddr.toNat + i < 0x200000 →
    ∃ t, translate mem (bootloaderAddr.toNat + i) = some t ∧ (t.phys : Int) < memSize.toInt ∧
      mem t.phys = code[i]

variable {memSize : Int64} {mem paged : ByteMem} {args : MiniKvmRunArgs} {code : List UInt8}

/-- The tables end where the kernel starts. -/
theorem identityMapped_copy (pages : kvmSetupPages memSize mem = (.success, paged)) :
    IdentityMapped (paged.copy bootloaderAddr.toNat code) := by
  obtain ⟨-, top, middle, bottom⟩ := kvmSetupPages_success pages
  intro va bound
  have apart {table : Nat} (low : table ≤ 0x3000) :
      bootloaderAddr.toNat + code.length ≤ table ∨ table + 4096 ≤ bootloaderAddr.toNat := by
    refine .inr ?_
    rw [show bootloaderAddr.toNat = 0x4000 by decide]
    omega
  rw [translate, show address 12 plm4Addr.toNat = 0x1000 by decide,
    walkFrom_sole (top.copy (apart (by decide)))
    (middle.copy (apart (by decide))) (bottom.copy (apart (by decide))) (by decide) (by decide)
    (lt_of_index_zero_of_lt bound), show address 21 0x83 = 0 by decide, Nat.zero_add]
  rfl

theorem foundMapped_of_copied (identity : IdentityMapped mem)
    (fits : ((bootloaderAddr.toNat + code.length : Nat) : Int) ≤ memSize.toInt)
    (copied : ∀ (i : Nat) (inside : i < code.length), mem (bootloaderAddr.toNat + i) = code[i]) :
    FoundMapped memSize mem code := by
  intro i inside low
  refine ⟨⟨bootloaderAddr.toNat + i, true⟩, ?_, ?_, copied i inside⟩
  · rw [identity _ (by omega), if_pos low]
  · refine lt_of_lt_of_le ?_ fits
    exact_mod_cast Nat.add_lt_add_left inside _

/-- Whatever was in guest memory, the tables and the kernel that fits behind them leave the low 2 MiB
mapped to themselves and nothing else mapped, with the kernel in its place. -/
theorem boot_tables_identity (memSize : Int64) (mem : ByteMem) (args : MiniKvmRunArgs)
    (code : List UInt8) (enough : minimumMemoryRequired ≤ memSize)
    (kernel : args.kernelCode = some code) (size : args.kernelSize = code.length)
    (fits : ((bootloaderAddr.toNat + code.length : Nat) : Int) ≤ memSize.toInt) :
    ∃ paged, kvmSetupPages memSize mem = (.success, paged) ∧
      IdentityMapped (loadKernel paged args bootloaderAddr).mem ∧
      FoundMapped memSize (loadKernel paged args bootloaderAddr).mem code := by
  obtain ⟨paged, pages⟩ := kvmSetupPages_of_enough enough mem
  refine ⟨paged, pages, ?_⟩
  have loaded : (loadKernel paged args bootloaderAddr).mem =
      paged.copy bootloaderAddr.toNat code := by
    simp only [loadKernel, kernel, size, List.take_length]
    split
    · next empty =>
      rw [List.eq_nil_of_length_eq_zero empty]
      exact ByteMem.copy_nil.symm
    · rfl
  rw [loaded]
  have identity : IdentityMapped (paged.copy bootloaderAddr.toNat code) :=
    identityMapped_copy pages
  exact ⟨identity, foundMapped_of_copied identity fits fun i inside => ByteMem.copy_inside inside⟩

/-- A kernel of one byte in the least memory that is accepted. -/
theorem boot_tables_identity_least :
    ∃ paged, kvmSetupPages 0x5000 (fun _ => 0xff) = (.success, paged) ∧
      IdentityMapped (loadKernel paged ⟨none, false, 1, 0x5000, 1, some [0xf4]⟩ bootloaderAddr).mem ∧
      FoundMapped 0x5000
        (loadKernel paged ⟨none, false, 1, 0x5000, 1, some [0xf4]⟩ bootloaderAddr).mem [0xf4] :=
  boot_tables_identity 0x5000 (fun _ => 0xff) ⟨none, false, 1, 0x5000, 1, some [0xf4]⟩ [0xf4]
    (by decide) rfl rfl (by decide)

end MiniKvm.Guarantees.BootTables
