import MiniKvm.Source.Core

/-!
# SHOW_REGS

status_handle_regs on the server, which fills the register arrays of the reply, and the loop of
status_handle_command_result on the client, which prints them. What kvm_regs and kvm_sregs hold
plays no part, so their types are parameters. Both loops also return their shifts and the slots they
use, in order.
-/
namespace MiniKvm.Source.StatusRegs

variable {R S : Type*}

/-- The answers of KVM_GET_REGS and KVM_GET_SREGS for a vcpu, `none` when the ioctl fails. -/
structure VCpu (R S : Type*) where
  regs : Option R
  sregs : Option S
  deriving DecidableEq

structure MiniKvmStatusResult (R S : Type*) where
  cmdType : CommandType
  error : MiniKVMError
  vcpus : UInt64
  regs : Vector R miniKvmMaxVcpus
  sregs : Vector S miniKvmMaxVcpus
  state : VMState

inductive Access where
  /-- `1UL << count`. -/
  | shift (count : Nat)
  /-- `res->regs[slot]`. -/
  | regs (slot : Nat)
  /-- `res->sregs[slot]`. -/
  | sregs (slot : Nat)
  deriving DecidableEq, Repr

def Access.index : Access → Nat
  | .shift i | .regs i | .sregs i => i

/-- What the handler returns and leaves in `res`, with its accesses. -/
structure Handled (R S : Type*) where
  ret : MiniKVMError
  res : MiniKvmStatusResult R S
  accesses : List Access

def Handled.preceded (before : List Access) (h : Handled R S) : Handled R S :=
  { h with accesses := before ++ h.accesses }

/-- The loop of status_handle_regs, from `index` on. -/
def handleRegsFrom (mask : UInt64) :
    Nat → List (VCpu R S) → MiniKvmStatusResult R S → Handled R S
  | _, [], res => ⟨.success, res, []⟩
  | index, vcpu :: rest, res =>
    if vcpuSelected mask index then
      match vcpu.regs with
      | none => ⟨.internalError, res, [.shift index]⟩
      | some regs =>
        -- `&res->regs` is the address of the first slot
        let res := { res with regs := res.regs.set 0 regs (by decide) }
        match vcpu.sregs with
        | none => ⟨.internalError, res, [.shift index, .regs 0]⟩
        | some sregs =>
          let res := { res with sregs := res.sregs.set 0 sregs (by decide) }
          (handleRegsFrom mask (index + 1) rest res).preceded [.shift index, .regs 0, .sregs 0]
    else (handleRegsFrom mask (index + 1) rest res).preceded [.shift index]

def statusHandleRegs (state : VMState) (vcpus : List (VCpu R S)) (cmd : MiniKvmStatusCommand)
    (res : MiniKvmStatusResult R S) : Handled R S :=
  if state = .paused then handleRegsFrom cmd.vcpus 0 vcpus res
  else ⟨.statusCmdVmNotPaused, res, []⟩

/-- What mini_kvm_status_handle_command makes of it. -/
def replyToRegs (cmd : MiniKvmStatusCommand) (h : Handled R S) : MiniKvmStatusResult R S :=
  { h.res with cmdType := cmd.type, vcpus := cmd.vcpus, error := h.ret }

/-- The registers the client prints under the heading of a vcpu. -/
structure Report (R S : Type*) where
  index : Nat
  regs : R
  sregs : S
  deriving DecidableEq

/-- The MINI_KVM_COMMAND_SHOW_REGS case of status_handle_command_result. -/
def printRegs (res : MiniKvmStatusResult R S) : List (Report R S) × List Access :=
  (((List.finRange miniKvmMaxVcpus).filter fun i => vcpuSelected res.vcpus i.val).map fun i =>
      ⟨i.val, res.regs[i], res.sregs[i]⟩,
    (List.range miniKvmMaxVcpus).flatMap fun i =>
      .shift i :: if vcpuSelected res.vcpus i then [.regs i, .sregs i] else [])

def statusHandleCommandResult (res : MiniKvmStatusResult R S) :
    List (Report R S) × List Access :=
  if res.error = .success ∧ res.cmdType = .showRegs then printRegs res else ([], [])

end MiniKvm.Source.StatusRegs
