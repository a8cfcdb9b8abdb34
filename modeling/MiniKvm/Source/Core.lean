import Mathlib

/-!
# Shared vocabulary of the sources

core/errors.h, core/constants.h, kvm/kvm.h (VMState, signals) and commands/status.h (the commands
of the status socket).
-/
namespace MiniKvm.Source

/-- core/errors.h, in declaration order. -/
inductive MiniKVMError where
  | success | internalError | unrecognizedCommand | argsFailed | failedFsSetup | failedAllocation
  | notEnoughMemory | wrongVersion | noDevice | failedVmCreation | failedSocketCreation
  | failedIoctl | unsupportedCaps | failedMemoryRegionCreation | failedVcpuCreation | failedRun
  | statusCommandFailed | statusCmdVmNotPaused
  deriving DecidableEq, Repr

/-- The number of the enumerator. -/
def MiniKVMError.code (e : MiniKVMError) : Int32 := .ofNat e.ctorIdx

/-- `MINI_KVM_PAUSED = 0`, `MINI_KVM_RUNNING`, `MINI_KVM_SHUTDOWN`. -/
inductive VMState where
  | paused | running | shutdown
  deriving DecidableEq, Repr

/-- `SIGVMPAUSE`, `SIGVMRESUME`, `SIGVMSHUTDOWN`. -/
inductive VMSignal where
  | pause | resume | shutdown
  deriving DecidableEq, Repr

/-- `MiniKvmStatusCommandType`, without its count. -/
inductive CommandType where
  | none | pause | resume | shutdown | showState | showRegs | dumpMem
  deriving DecidableEq, Repr

/-- The commands that wake the vcpu threads up. -/
def CommandType.Releases (type : CommandType) : Prop := type = .resume ∨ type = .shutdown

/-- The commands that store to `kvm->state`; the others are queries. -/
def CommandType.Changes (type : CommandType) : Prop := type = .pause ∨ type.Releases

instance (type : CommandType) : Decidable type.Releases :=
  inferInstanceAs (Decidable (_ ∨ _))

instance (type : CommandType) : Decidable type.Changes :=
  inferInstanceAs (Decidable (_ ∨ _))

structure MiniKvmStatusCommand where
  type : CommandType
  vcpus : UInt64 := 0
  memRange : Vector Int64 4 := .replicate 4 0
  pid : Int32 := 0
  deriving DecidableEq

def miniKvmMaxVcpus : Nat := 64

/-- `PAGE_SIZE`. -/
def pageSize : Nat := 0x1000

/-- `cmd->vcpus & (1UL << index)`; the x86-64 shift takes its count modulo 64. -/
def vcpuSelected (mask : UInt64) (index : Nat) : Bool := mask.toNat.testBit (index % 64)

theorem vcpuSelected_of_lt {mask : UInt64} {i : Nat} (h : i < miniKvmMaxVcpus) :
    vcpuSelected mask i = mask.toNat.testBit i := by
  have small : i % 64 = i := Nat.mod_eq_of_lt h
  rw [vcpuSelected, small]

end MiniKvm.Source
