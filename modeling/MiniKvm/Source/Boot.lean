import MiniKvm.Lib.PageWalk
import MiniKvm.Source.Core

/-!
# The boot vcpu

mini_kvm_setup_vcpu, kvm_setup_cpuid, kvm_setup_pages and mini_kvm_configure_paging (kvm/kvm.c). Guest
memory is its bytes by offset. Whether an ioctl succeeds is a parameter; what KVM itself holds of a
vcpu is a part of the state, next to the copies in VCpu.
-/
namespace MiniKvm.Source.Boot
open Lib Lib.PageWalk

/-! ## Constants -/

def plm4Addr : UInt64 := 0x1000
def minimumMemoryRequired : Int64 := 0x5000
def bootloaderAddr : UInt64 := 0x4000

def cr0Pe : UInt64 := 0x1
def cr0Pg : UInt64 := 0x80000000
def cr4Pae : UInt64 := (1 : UInt64) <<< 5
def eferLme : UInt64 := (1 : UInt64) <<< 8
def eferLma : UInt64 := (1 : UInt64) <<< 10

def ptAddrMask : UInt64 := 0xffffffffff000
def ptRw : UInt64 := (1 : UInt64) <<< 1
def ptPresent : UInt64 := (1 : UInt64) <<< 0
def ptPageSize : UInt64 := (1 : UInt64) <<< 7

/-! ## Registers -/

/-- `struct kvm_regs`. -/
structure KvmRegs where
  (rax rbx rcx rdx rsi rdi rsp rbp r8 r9 r10 r11 r12 r13 r14 r15 rip rflags : UInt64)
  deriving DecidableEq, Repr, Inhabited

/-- The registers of a vcpu after KVM_SET_REGS: KVM forces the bit of rflags that is always set. -/
def KvmRegs.loaded (regs : KvmRegs) : KvmRegs := { regs with rflags := regs.rflags ||| 0b10 }

/-- `struct kvm_segment`. -/
structure KvmSegment where
  base : UInt64
  limit : UInt32
  selector : UInt16
  (type present dpl db s l g avl unusable : UInt8)
  deriving DecidableEq, Repr, Inhabited

/-- The fields of `struct kvm_sregs` that the program stores to. -/
structure KvmSregs where
  (cs ds es fs gs ss : KvmSegment)
  (cr0 cr3 cr4 efer : UInt64)
  deriving DecidableEq, Repr, Inhabited

structure VCpu where
  regs : KvmRegs
  sregs : KvmSregs
  /-- What KVM holds. -/
  loadedRegs : KvmRegs
  loadedSregs : KvmSregs
  deriving DecidableEq, Repr, Inhabited

/-- Whether the ioctls on a vcpu succeed. -/
structure Ioctls where
  (setRegs getSregs setSregs getSupportedCpuid setCpuid2 : Bool)
  deriving DecidableEq, Repr

/-- The fields that paging is about. `vcpu` is `vcpus->tab[0]`. -/
structure Kvm where
  memSize : Int64
  mem : ByteMem
  vcpu : VCpu

/-! ## mini_kvm_setup_vcpu -/

def initialRegs (memSize : Int64) (startAddr : UInt64) : KvmRegs where
  rax := 0
  rbx := 0
  rcx := 0
  rdx := 0
  rsi := 0
  rdi := 0
  rsp := (memSize - 1).toUInt64
  rbp := (memSize - 1).toUInt64
  r8 := 0
  r9 := 0
  r10 := 0
  r11 := 0
  r12 := 0
  r13 := 0
  r14 := 0
  r15 := 0
  rip := startAddr
  rflags := 0b01

def KvmSegment.cleared (seg : KvmSegment) : KvmSegment := { seg with selector := 0, base := 0 }

def kvmSetupCpuid (ioctls : Ioctls) : MiniKVMError :=
  if ioctls.getSupportedCpuid then
    if ioctls.setCpuid2 then .success else .failedIoctl
  else .failedIoctl

def miniKvmSetupVcpu (ioctls : Ioctls) (memSize : Int64) (vcpu : VCpu) (startAddr : UInt64) :
    MiniKVMError × VCpu :=
  let vcpu := { vcpu with regs := initialRegs memSize startAddr }
  if ioctls.setRegs then
    let vcpu := { vcpu with loadedRegs := vcpu.regs.loaded }
    if ioctls.getSregs then
      let sregs := vcpu.loadedSregs
      let vcpu := { vcpu with
        sregs := { sregs with
          cs := sregs.cs.cleared
          ds := sregs.ds.cleared
          ss := sregs.ss.cleared } }
      if ioctls.setSregs then
        let vcpu := { vcpu with loadedSregs := vcpu.sregs }
        (if kvmSetupCpuid ioctls = .success then .success else .failedVcpuCreation, vcpu)
      else (.failedVcpuCreation, vcpu)
    else (.failedVcpuCreation, vcpu)
  else (.failedVcpuCreation, vcpu)

/-! ## mini_kvm_configure_paging -/

def tableEntry (addr : UInt64) : UInt64 := (addr &&& ptAddrMask) ||| ptPresent ||| ptRw

def kvmSetupPages (memSize : Int64) (mem : ByteMem) : MiniKVMError × ByteMem :=
  let pdptAddr := plm4Addr + .ofNat pageSize
  let pdtAddr := pdptAddr + .ofNat pageSize
  if memSize < minimumMemoryRequired then (.notEnoughMemory, mem)
  else
    let mem := mem.fill plm4Addr.toNat (pageSize * 3) 0
    let mem := mem.store plm4Addr.toNat 8 (tableEntry pdptAddr).toNat
    let mem := mem.store pdptAddr.toNat 8 (tableEntry pdtAddr).toNat
    (.success, mem.store pdtAddr.toNat 8 (ptPageSize ||| ptPresent ||| ptRw).toNat)

def codeSeg : KvmSegment where
  base := 0
  limit := 0xffffffff
  selector := (1 : UInt16) <<< 3
  type := 11
  present := 1
  dpl := 0
  db := 0
  s := 1
  l := 1
  g := 1
  avl := 0
  unusable := 0

def dataSeg : KvmSegment := { codeSeg with selector := (2 : UInt16) <<< 3, type := 0x3 }

/-- `setSregs` says whether KVM_SET_SREGS succeeds. -/
def miniKvmConfigurePaging (setSregs : Bool) (kvm : Kvm) : MiniKVMError × Kvm :=
  let (ret, mem) := kvmSetupPages kvm.memSize kvm.mem
  if ret = .success then
    let sregs := { kvm.vcpu.sregs with
      cr0 := cr0Pe ||| cr0Pg
      cr3 := plm4Addr
      cr4 := cr4Pae
      efer := eferLme ||| eferLma
      cs := codeSeg
      ds := dataSeg
      es := dataSeg
      fs := dataSeg
      gs := dataSeg }
    if setSregs then
      (.success, { kvm with mem, vcpu := { kvm.vcpu with sregs, loadedSregs := sregs } })
    else (.failedIoctl, { kvm with mem, vcpu := { kvm.vcpu with sregs } })
  else (ret, { kvm with mem })

/-! ## What they leave -/

theorem miniKvmSetupVcpu_success {ioctls : Ioctls} {memSize : Int64} {vcpu vcpu' : VCpu}
    {startAddr : UInt64}
    (setup : miniKvmSetupVcpu ioctls memSize vcpu startAddr = (.success, vcpu')) :
    vcpu'.loadedRegs = (initialRegs memSize startAddr).loaded := by
  simp only [miniKvmSetupVcpu] at setup
  split at setup
  · split at setup
    · split at setup
      · rw [Prod.mk.injEq] at setup
        rw [← setup.2]
      · cases setup
    · cases setup
  · cases setup

theorem kvmSetupPages_success {memSize : Int64} {mem mem' : ByteMem}
    (setup : kvmSetupPages memSize mem = (.success, mem')) :
    minimumMemoryRequired ≤ memSize ∧
      Sole mem' 0x1000 0x2003 ∧ Sole mem' 0x2000 0x3003 ∧ Sole mem' 0x3000 0x83 := by
  simp only [kvmSetupPages] at setup
  split at setup
  · cases setup
  · next enough =>
    have blank {table : Nat} (low : 0x1000 ≤ table) (high : table ≤ 0x3000) :
        Blank (mem.fill 0x1000 0x3000 0) table :=
      blank_fill low (by omega)
    cases setup
    refine ⟨Int64.not_lt.mp enough, ?_, ?_, ?_⟩
    · exact (((blank (by decide) (by decide)).sole (by decide)).store (.inr (by decide))).store
        (.inr (by decide))
    · exact (((blank (by decide) (by decide)).store (.inl (by decide))).sole (by decide)).store
        (.inr (by decide))
    · exact (((blank (by decide) (by decide)).store (.inl (by decide))).store
        (.inl (by decide))).sole (by decide)

theorem kvmSetupPages_of_enough {memSize : Int64} (enough : minimumMemoryRequired ≤ memSize)
    (mem : ByteMem) : ∃ mem', kvmSetupPages memSize mem = (.success, mem') := by
  simp only [kvmSetupPages]
  rw [if_neg (Int64.not_lt.mpr enough)]
  exact ⟨_, rfl⟩

/-- The boot page tables map the first 2 MiB to themselves. -/
theorem walk_kvmSetupPages {memSize : Int64} {mem mem' : ByteMem}
    (setup : kvmSetupPages memSize mem = (.success, mem')) (va : Nat) :
    walk mem' plm4Addr.toNat va = if va < 2 ^ 21 then some ⟨va, true⟩ else none := by
  obtain ⟨-, top, middle, bottom⟩ := kvmSetupPages_success setup
  rw [walk_sole plm4Addr.toNat top middle bottom (by decide) (by decide) va]
  split
  · rw [show address 21 0x83 = 0 by decide, Nat.zero_add]
    rfl
  · rfl

theorem miniKvmConfigurePaging_success {setSregs : Bool} {kvm kvm' : Kvm}
    (paging : miniKvmConfigurePaging setSregs kvm = (.success, kvm')) :
    kvmSetupPages kvm.memSize kvm.mem = (.success, kvm'.mem) ∧ kvm'.memSize = kvm.memSize ∧
      kvm'.vcpu.loadedSregs.cr3 = plm4Addr ∧ kvm'.vcpu.loadedRegs = kvm.vcpu.loadedRegs := by
  simp only [miniKvmConfigurePaging] at paging
  split at paging
  · next pages =>
    split at paging
    · rw [Prod.mk.injEq] at paging
      rw [← paging.2]
      exact ⟨Prod.ext pages rfl, rfl, rfl, rfl⟩
    · cases paging
  · next refused =>
    rw [Prod.mk.injEq] at paging
    exact absurd paging.1 refused

end MiniKvm.Source.Boot
