import MiniKvm.Lib.Lts
import MiniKvm.Lib.Sync
import MiniKvm.Source.Core

/-!
# The server process

One main thread (mini_kvm_start_vm, then run_main_loop with the command handlers of
commands/status.c) and `n` vcpu threads (kvm_vcpu_thread_run) over the shared fields of `Kvm`.
Every mutex, condition-variable and field access is one step. A handler is the list of its
accesses in program order, so that it can be read against the C function; the vcpu threads, which
loop, have an explicit program counter.

Not modelled here: the register arrays of the reply, the contents of guest memory, the file
descriptors, and the lock of the logger, which both kinds of threads take to log (the threads that
share it are in Source.LoggerThreads). The environment chooses connections, commands, KVM exits,
signals caught by the process, failures of system calls and what comes of a dump. A signal that kills
the process ends the run.
-/
namespace MiniKvm.Source.Server
open Lib.Sync

inductive Tid (n : Nat) where
  | main
  | vcpu (i : Fin n)
  deriving DecidableEq, Repr

/-- The fields of `Kvm` that more than one thread reads or writes. -/
structure Kvm (n : Nat) where
  state : VMState
  paused : UInt64
  lock : Mutex (Tid n)
  pauseLock : Mutex (Tid n)
  pauseCond : CondVar (Fin n)

/-- kvm_run->exit_reason, as far as the switch of kvm_vcpu_thread_run reads it. -/
inductive ExitReason where
  | hlt
  | io (out : Bool) (port : UInt16)
  | shutdown | internalError | intr | failEntry | unknown | other
  deriving DecidableEq, Repr

/-- Where a vcpu thread is in kvm_vcpu_thread_run. -/
inductive VcpuPc where
  | unborn
  | setup
  | testShutdown
  | testPaused
  | testFlag
  | callWait
  | waiting
  | enterRun
  | inRun
  | exited (ret : UInt32) (reason : ExitReason)
  | ended
  deriving DecidableEq, Repr

/-- One shared access, or system call, of the main thread. -/
inductive Op (n : Nat) where
  | lock
  | lockPause
  | unlockPause
  | storeState (v : VMState)
  | storePaused (v : UInt64)
  | signalPauseCond
  /-- `if (kvm->paused) { .. }` around the rest of the function. -/
  | ifPaused
  /-- `if (kvm->state != MINI_KVM_PAUSED) return MINI_KVM_STATUS_CMD_VM_NOT_PAUSED;` -/
  | unlessPausedReturn
  /-- `res->state = kvm->state`. -/
  | readState
  | pthreadKill (i : Fin n) (sig : VMSignal)
  /-- KVM_GET_REGS and KVM_GET_SREGS on vcpu `i`, which wait while it is inside KVM_RUN. -/
  | getRegs (i : Fin n)
  | dumpMem
  | pthreadCreate (i : Fin n)
  deriving DecidableEq, Repr

instance (n : Nat) : LawfulBEq (Op n) := inferInstance

/-- What the main thread is in the middle of. -/
inductive Task where
  | startVm
  | command (cmd : MiniKvmStatusCommand)
  | signalBranch
  deriving DecidableEq

/-- Where the main thread is; `exec` holds the return value so far and the accesses to come. -/
inductive MainPc (n : Nat) where
  | exec (task : Task) (ret : MiniKVMError) (rest : List (Op n))
  | loopTest
  | accepting
  | receiving
  | replying
  | sigTest
  | left
  deriving DecidableEq

/-- The fields of `MiniKvmStatusResult` other than the register arrays. -/
structure Reply where
  cmdType : CommandType := .none
  error : MiniKVMError := .success
  vcpus : UInt64 := 0
  state : VMState := .paused
  deriving DecidableEq

/-- `pending` holds the signals sent to a vcpu thread and not yet delivered; `killed` is set once a
signal has killed the process. -/
structure State (n : Nat) where
  kvm : Kvm n
  main : MainPc n
  res : Reply
  vcpus : Fin n → VcpuPc
  pending : Fin n → List VMSignal
  killed : Bool

/-! ## The functions of the main thread -/

section Handlers

variable {n : Nat}

def miniKvmSendSig (sig : VMSignal) : List (Op n) :=
  (List.finRange n).map fun i => .pthreadKill i sig

def miniKvmPauseVm : List (Op n) := [.lockPause, .storePaused 1]

def miniKvmResumeVm : List (Op n) := [.storePaused 0, .signalPauseCond, .unlockPause]

def statusHandleNone : List (Op n) := []

def statusHandleCmdState : List (Op n) := [.readState]

def statusHandleRegs (cmd : MiniKvmStatusCommand) : List (Op n) :=
  .unlessPausedReturn ::
    ((List.finRange n).filter fun i => vcpuSelected cmd.vcpus i.val).map .getRegs

def statusHandleDumpMem : List (Op n) := [.unlessPausedReturn, .dumpMem]

def statusHandlePause : List (Op n) :=
  .storeState .paused :: (miniKvmSendSig .pause ++ miniKvmPauseVm)

def statusHandleResume : List (Op n) :=
  .storeState .running :: (miniKvmSendSig .resume ++ miniKvmResumeVm)

def statusHandleShutdown : List (Op n) :=
  .storeState .shutdown :: (miniKvmSendSig .shutdown ++ .ifPaused :: miniKvmResumeVm)

def handlers (cmd : MiniKvmStatusCommand) : List (Op n) :=
  match cmd.type with
  | .none => statusHandleNone
  | .pause => statusHandlePause
  | .resume => statusHandleResume
  | .shutdown => statusHandleShutdown
  | .showState => statusHandleCmdState
  | .showRegs => statusHandleRegs cmd
  | .dumpMem => statusHandleDumpMem

/-- Up to the handler's return; `finish` fills the reply and releases `kvm->lock`. -/
def miniKvmStatusHandleCommand (cmd : MiniKvmStatusCommand) : List (Op n) :=
  .lock :: handlers cmd

/-- Past the test for no vcpus, which mini_kvm_run rules out: it adds `args.vcpu` of them. -/
def miniKvmStartVm : List (Op n) :=
  (List.finRange n).map .pthreadCreate ++ [.storeState .running]

/-- The SIGINT/SIGTERM branch of run_main_loop. -/
def signalBranch : List (Op n) :=
  .storeState .shutdown :: miniKvmSendSig .shutdown

def Task.ops : Task → List (Op n)
  | .startVm => miniKvmStartVm
  | .command cmd => miniKvmStatusHandleCommand cmd
  | .signalBranch => Server.signalBranch

end Handlers

/-! ## Steps -/

/-- A choice of the scheduler, with what the environment answers. -/
inductive Event (n : Nat) where
  | main
  /-- pthread_cond_signal reaches vcpu `i`. -/
  | wake (i : Fin n)
  /-- The system call at the head of the main thread's accesses fails. -/
  | fails
  /-- mini_kvm_dump_mem raises a signal, by a division by zero, a byte that is not there or a pipe
  that nobody reads. -/
  | crash
  | accept (connected : Bool)
  /-- `none` when recv returns 0 or less. -/
  | recv (cmd : Option MiniKvmStatusCommand)
  | reply
  /-- The reply goes to a socket that its peer has closed: SIGPIPE. -/
  | brokenPipe
  | sigTest (caught : Bool)
  | vcpu (i : Fin n)
  | exit (i : Fin n) (ret : UInt32) (reason : ExitReason)
  | deliver (i : Fin n) (sig : VMSignal)
  deriving DecidableEq

namespace State

variable {n : Nat}

def goto (s : State n) (i : Fin n) (pc : VcpuPc) : State n :=
  { s with vcpus := Function.update s.vcpus i pc }

def setState (s : State n) (v : VMState) : State n := { s with kvm := { s.kvm with state := v } }

/-- Some vcpu thread has made its calls of signal(), which hold for the whole process. -/
def Installed (s : State n) : Prop := ∃ i, s.vcpus i ≠ .unborn ∧ s.vcpus i ≠ .setup

instance (s : State n) : Decidable s.Installed :=
  inferInstanceAs (Decidable (∃ i, s.vcpus i ≠ .unborn ∧ s.vcpus i ≠ .setup))

end State

section Steps

variable {n : Nat}

instance (c : CondVar (Fin n)) : Decidable c.NobodyAsleep :=
  inferInstanceAs (Decidable (∀ i, c.waiter i ≠ some .asleep))

/-- The effect of an access; `none` when the thread blocks in it. -/
def Op.exec (s : State n) : Op n → Option (State n)
  | .lock => (s.kvm.lock.lock .main).map fun m => { s with kvm := { s.kvm with lock := m } }
  | .lockPause =>
    (s.kvm.pauseLock.lock .main).map fun m => { s with kvm := { s.kvm with pauseLock := m } }
  | .unlockPause => some { s with kvm := { s.kvm with pauseLock := s.kvm.pauseLock.unlock } }
  | .storeState v => some (s.setState v)
  | .storePaused v => some { s with kvm := { s.kvm with paused := v } }
  -- with a sleeper the signal is `Event.wake`
  | .signalPauseCond => if s.kvm.pauseCond.NobodyAsleep then some s else none
  | .readState => some { s with res := { s.res with state := s.kvm.state } }
  | .pthreadKill i sig =>
    some { s with pending := Function.update s.pending i (s.pending i ++ [sig]) }
  | .pthreadCreate i => some (s.goto i .setup)
  -- KVM_RUN and KVM_GET_REGS take the mutex of the vcpu
  | .getRegs i => if s.vcpus i = .inRun then none else some s
  | .ifPaused | .unlessPausedReturn | .dumpMem => some s

/-- Where the main thread goes after the access `op`. -/
def Op.next (s : State n) (task : Task) (ret : MiniKVMError) (rest : List (Op n)) :
    Op n → MainPc n
  | .ifPaused => .exec task ret (if s.kvm.paused = 0 then [] else rest)
  | .unlessPausedReturn =>
    if s.kvm.state = .paused then .exec task ret rest else .exec task .statusCmdVmNotPaused []
  | _ => .exec task ret rest

/-- The function the main thread is in has returned `ret`. -/
def finish (s : State n) (ret : MiniKVMError) : Task → State n
  | .startVm => { s with main := if ret = .success then .loopTest else .left }
  | .command cmd =>
    { s with
      res := { s.res with cmdType := cmd.type, vcpus := cmd.vcpus, error := ret }
      kvm := { s.kvm with lock := s.kvm.lock.unlock }
      main := .replying }
  | .signalBranch => { s with main := .loopTest }

def mainStep (s : State n) : Option (State n) :=
  match s.main with
  | .exec task ret [] => some (finish s ret task)
  | .exec task ret (op :: rest) =>
    (op.exec s).map fun t => { t with main := op.next s task ret rest }
  | .loopTest => some { s with main := if s.kvm.state = .shutdown then .left else .accepting }
  | _ => none

def wakeStep (s : State n) (i : Fin n) : Option (State n) :=
  match s.main with
  | .exec task ret (.signalPauseCond :: rest) =>
    (s.kvm.pauseCond.wake i).map fun c =>
      { s with kvm := { s.kvm with pauseCond := c }, main := .exec task ret rest }
  | _ => none

/-- A failed pthread_create leaves the loop of mini_kvm_start_vm before its last store; a failed
query returns at once. -/
def failStep (s : State n) : Option (State n) :=
  match s.main with
  | .exec task _ (.pthreadCreate _ :: _) =>
    some { s with main := .exec task .failedRun [.storeState .running] }
  | .exec task _ (.getRegs i :: _) =>
    if s.vcpus i = .inRun then none else some { s with main := .exec task .internalError [] }
  | .exec task _ (.dumpMem :: _) => some { s with main := .exec task .internalError [] }
  | _ => none

def crashStep (s : State n) : Option (State n) :=
  match s.main with
  | .exec _ _ (.dumpMem :: _) => some { s with killed := true }
  | _ => none

/-- mini_kvm_handle_io, without the byte it writes. -/
def miniKvmHandleIo (out : Bool) (port : UInt16) : MiniKVMError :=
  if out then if port = 0x3f8 then .success else .internalError else .success

/-- The exits after which the switch stores MINI_KVM_SHUTDOWN. -/
def ExitReason.shutsDown : ExitReason → Bool
  | .hlt | .shutdown | .internalError | .failEntry => true
  | .io out port => miniKvmHandleIo out port != .success
  | .intr | .unknown | .other => false

/-- One step of kvm_vcpu_thread_run; `none` when the thread is blocked, inside KVM_RUN or over. -/
def kvmVcpuThreadRun (s : State n) (i : Fin n) : Option (State n) :=
  match s.vcpus i with
  | .unborn | .inRun | .ended => none
  | .setup => some (s.goto i .testShutdown)
  | .testShutdown =>
    some (s.goto i (if s.kvm.state = .shutdown then .ended else .testPaused))
  | .testPaused => some (s.goto i (if s.kvm.state = .paused then .testFlag else .enterRun))
  | .testFlag => some (s.goto i (if s.kvm.paused = 0 then .testShutdown else .callWait))
  | .callWait =>
    some { s.goto i .waiting with
      kvm := { s.kvm with
        pauseLock := s.kvm.pauseLock.unlock
        pauseCond := s.kvm.pauseCond.wait i } }
  | .waiting =>
    if s.kvm.pauseCond.waiter i = some .woken then
      (s.kvm.pauseLock.lock (.vcpu i)).map fun m =>
        { s.goto i .testFlag with
          kvm := { s.kvm with pauseLock := m, pauseCond := s.kvm.pauseCond.leave i } }
    else none
  | .enterRun => some (s.goto i .inRun)
  | .exited ret reason =>
    -- `ret` is a MiniKVMError, which gcc makes unsigned
    if ret < 0 then some ((s.setState .shutdown).goto i .ended)
    else if reason.shutsDown then some ((s.setState .shutdown).goto i .testShutdown)
    else some (s.goto i .testShutdown)

/-- KVM_RUN comes back. -/
def exitStep (s : State n) (i : Fin n) (ret : UInt32) (reason : ExitReason) : Option (State n) :=
  if s.vcpus i = .inRun then some (s.goto i (.exited ret reason)) else none

/-- mini_kvm_vcpu_signal_handler runs; inside KVM_RUN the ioctl then fails with EINTR. Without the
handler the signal ends the process, as real-time signals do. -/
def deliverStep (s : State n) (i : Fin n) (sig : VMSignal) : Option (State n) :=
  if sig ∈ s.pending i then
    if s.Installed then
      let t := { s with pending := Function.update s.pending i ((s.pending i).erase sig) }
      some (if s.vcpus i = .inRun then t.goto i (.exited (-1) .intr) else t)
    else some { s with killed := true }
  else none

/-- A step of a process that is alive. -/
def live (s : State n) : Event n → Option (State n)
  | .main => mainStep s
  | .wake i => wakeStep s i
  | .fails => failStep s
  | .crash => crashStep s
  | .accept connected =>
    if s.main = .accepting then
      some { s with main := if connected then .receiving else .sigTest }
    else none
  | .recv cmd =>
    if s.main = .receiving then
      some { s with
        main := match cmd with
          | some c => .exec (.command c) .success (miniKvmStatusHandleCommand c)
          | none => .sigTest }
    else none
  | .reply => if s.main = .replying then some { s with main := .receiving } else none
  | .brokenPipe => if s.main = .replying then some { s with killed := true } else none
  | .sigTest caught =>
    if s.main = .sigTest then
      some { s with
        main := if caught then .exec .signalBranch .success signalBranch else .loopTest }
    else none
  | .vcpu i => kvmVcpuThreadRun s i
  | .exit i ret reason => exitStep s i ret reason
  | .deliver i sig => deliverStep s i sig

def step (s : State n) (e : Event n) : Option (State n) := if s.killed then none else live s e

inductive Label where
  | began (type : CommandType)
  | returned (type : CommandType) (ret : MiniKVMError)
  deriving DecidableEq, Repr

/-- A command begins when it is received and has returned when its reply is filled. -/
def label (s : State n) : Event n → Option Label
  | .recv (some cmd) => some (.began cmd.type)
  | .main =>
    match s.main with
    | .exec (.command cmd) ret [] => some (.returned cmd.type ret)
    | _ => none
  | _ => none

def system (n : Nat) : Lib.Lts.System (State n) (Event n) Label := ⟨step, label⟩

/-- The Kvm that mini_kvm_setup_kvm leaves, at the call of mini_kvm_start_vm. -/
def init (n : Nat) : State n where
  kvm := ⟨.paused, 0, .unowned, .unowned, .nobody⟩
  main := .exec .startVm .success miniKvmStartVm
  res := {}
  vcpus := fun _ => .unborn
  pending := fun _ => []
  killed := false

end Steps

/-- The vcpu of a VM that has one. -/
def sole : Fin 1 := 0

end MiniKvm.Source.Server
