import MiniKvm.Source.StatusRegs

/-!
# The result buffer of the server

run_main_loop has one `MiniKvmStatusResult`, zeroed before the loop, which every command of every
connection fills and which is sent as a whole. The handlers of commands/status.c on the fields of
Kvm and of the result, with what the vcpu threads, the guest and signals do to Kvm in between as
steps of their own. The locks are left out: a reply that is sent comes from a handler that returned.
-/
namespace MiniKvm.Source.Replies
open StatusRegs

/-- The fields of Kvm that the handlers read or store. -/
structure Kvm (R S : Type*) where
  state : VMState
  paused : UInt64
  vcpus : List (VCpu R S)
  deriving DecidableEq

/-- What a handler returns, and leaves in Kvm and in the result. -/
structure Outcome (R S : Type*) where
  ret : MiniKVMError
  kvm : Kvm R S
  res : MiniKvmStatusResult R S

section Handlers

variable {R S : Type*}

def miniKvmPauseVm (kvm : Kvm R S) : Kvm R S := { kvm with paused := 1 }

def miniKvmResumeVm (kvm : Kvm R S) : Kvm R S := { kvm with paused := 0 }

def statusHandleNone (kvm : Kvm R S) (res : MiniKvmStatusResult R S) : Outcome R S :=
  ⟨.success, kvm, res⟩

def statusHandleCmdState (kvm : Kvm R S) (res : MiniKvmStatusResult R S) : Outcome R S :=
  ⟨.success, kvm, { res with state := kvm.state }⟩

def statusHandleRegs (kvm : Kvm R S) (cmd : MiniKvmStatusCommand)
    (res : MiniKvmStatusResult R S) : Outcome R S :=
  let handled := StatusRegs.statusHandleRegs kvm.state kvm.vcpus cmd res
  ⟨handled.ret, kvm, handled.res⟩

/-- `opens`: the standard output of the client can be opened. -/
def statusHandleDumpMem (opens : Bool) (kvm : Kvm R S) (res : MiniKvmStatusResult R S) :
    Outcome R S :=
  if kvm.state ≠ .paused then ⟨.statusCmdVmNotPaused, kvm, res⟩
  else if opens then ⟨.success, kvm, res⟩
  else ⟨.internalError, kvm, res⟩

def statusHandlePause (kvm : Kvm R S) (res : MiniKvmStatusResult R S) : Outcome R S :=
  ⟨.success, miniKvmPauseVm { kvm with state := .paused }, res⟩

def statusHandleResume (kvm : Kvm R S) (res : MiniKvmStatusResult R S) : Outcome R S :=
  ⟨.success, miniKvmResumeVm { kvm with state := .running }, res⟩

def statusHandleShutdown (kvm : Kvm R S) (res : MiniKvmStatusResult R S) : Outcome R S :=
  let kvm := { kvm with state := .shutdown }
  ⟨.success, if kvm.paused ≠ 0 then miniKvmResumeVm kvm else kvm, res⟩

def handlers (opens : Bool) (kvm : Kvm R S) (cmd : MiniKvmStatusCommand)
    (res : MiniKvmStatusResult R S) : Outcome R S :=
  match cmd.type with
  | .none => statusHandleNone kvm res
  | .pause => statusHandlePause kvm res
  | .resume => statusHandleResume kvm res
  | .shutdown => statusHandleShutdown kvm res
  | .showState => statusHandleCmdState kvm res
  | .showRegs => statusHandleRegs kvm cmd res
  | .dumpMem => statusHandleDumpMem opens kvm res

/-- Kvm and the result buffer, as run_main_loop has them between two commands. -/
structure Server (R S : Type*) where
  kvm : Kvm R S
  res : MiniKvmStatusResult R S

def miniKvmStatusHandleCommand (opens : Bool) (cmd : MiniKvmStatusCommand) (s : Server R S) :
    Server R S :=
  let out := handlers opens s.kvm cmd s.res
  ⟨out.kvm, { out.res with cmdType := cmd.type, vcpus := cmd.vcpus, error := out.ret }⟩

/-! ## Histories -/

inductive Happening (R S : Type*) where
  | command (cmd : MiniKvmStatusCommand) (opens : Bool)
  /-- The vcpu threads, the guest or a signal leave Kvm like this. -/
  | elsewhere (kvm : Kvm R S)

def Server.step (s : Server R S) : Happening R S → Server R S
  | .command cmd opens => miniKvmStatusHandleCommand opens cmd s
  | .elsewhere kvm => { s with kvm }

def Server.after (s : Server R S) (history : List (Happening R S)) : Server R S :=
  history.foldl Server.step s

/-- `MiniKvmStatusResult res = {0}`. -/
def zeroed [Zero R] [Zero S] : MiniKvmStatusResult R S :=
  ⟨.none, .success, 0, .replicate _ 0, .replicate _ 0, .paused⟩

end Handlers

end MiniKvm.Source.Replies
