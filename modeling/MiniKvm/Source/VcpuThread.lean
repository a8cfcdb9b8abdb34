import MiniKvm.Lib.ByteMem
import MiniKvm.Source.Server

/-!
# One vcpu thread and its kvm_run area

The loop of kvm_vcpu_thread_run while the VM is running, with what KVM_RUN leaves in the area shared
with the kernel, the exits that the switch handles and the bytes that reach standard output.
Source.Server has the same loop among the other threads, without the area and the bytes.
-/
namespace MiniKvm.Source.VcpuThread
open Lib Server

/-! ## The logger -/

/-- core/logger.h, in declaration order. -/
inductive LoggerLevel where
  | trace | info | warn | error | disable
  deriving DecidableEq, Repr

/-- What this thread prints besides the guest's bytes. -/
structure Host where
  level : LoggerLevel
  /-- Without an output file, log lines go to standard output. -/
  toStdout : Bool
  /-- Time, level and place, which log_log prints first; they differ from one exit to the next. -/
  head : Nat → LoggerLevel → List UInt8
  /-- What mini_kvm_print_regs prints. -/
  printRegs : Nat → List UInt8

/-- What log_log puts on standard output. -/
def Host.log (host : Host) (now : Nat) (level : LoggerLevel) (text : String) : List UInt8 :=
  if level.ctorIdx < host.level.ctorIdx then []
  else if host.toStdout then host.head now level ++ text.toUTF8.toList ++ [0x0a]
  else []

/-- LOGGER_LEVEL=DISABLE. -/
def Host.silent : Host := ⟨.disable, true, fun _ _ => [], fun _ => []⟩

/-! ## The area -/

def kvmExitIoOut : UInt8 := 1

/-- `kvm_run->io`. -/
structure KvmExitIo where
  direction : UInt8 := 0
  size : UInt8 := 0
  port : UInt16 := 0
  count : UInt32 := 0
  dataOffset : UInt64 := 0
  deriving DecidableEq, Repr

structure KvmRun where
  exitReason : UInt32 := 0
  io : KvmExitIo := {}
  bytes : ByteMem := fun _ => 0

/-- The cases of the switch, by the KVM_EXIT numbers of the kernel. -/
def KvmRun.exit (run : KvmRun) : ExitReason :=
  if run.exitReason = 0 then .unknown
  else if run.exitReason = 2 then .io (run.io.direction = kvmExitIoOut) run.io.port
  else if run.exitReason = 5 then .hlt
  else if run.exitReason = 8 then .shutdown
  else if run.exitReason = 9 then .failEntry
  else if run.exitReason = 10 then .intr
  else if run.exitReason = 17 then .internalError
  else .other

/-- KVM_EXIT_INTR. -/
def kvmExitIntr : UInt32 := 10

/-- How a call of KVM_RUN comes back. -/
inductive Outcome where
  | exit (run : KvmRun)
  /-- EINTR. -/
  | interrupted
  /-- Any other error; the area keeps what it had. -/
  | failed

/-- What ioctl returns. -/
def Outcome.ret : Outcome → Int32
  | .exit _ => 0
  | .interrupted | .failed => -1

/-- The area after the call. -/
def Outcome.kvmRun (old : KvmRun) : Outcome → KvmRun
  | .exit run => run
  | .interrupted => { old with exitReason := kvmExitIntr }
  | .failed => old

/-! ## The thread -/

/-- `kvm->state`, the area, the exits that the switch has been run on, and standard output. -/
structure Thread where
  state : VMState
  run : KvmRun
  handled : List KvmRun
  out : List UInt8

/-- The area is a page of zeros at first. -/
def Thread.init : Thread := ⟨.running, {}, [], []⟩

namespace Thread

variable (host : Host) (t : Thread)

/-- The number of the exit that is handled. -/
def now : Nat := t.handled.length

def log (level : LoggerLevel) (text : String) : Thread :=
  { t with out := t.out ++ host.log t.now level text }

def setState (v : VMState) : Thread := { t with state := v }

end Thread

/-- `%x`. -/
def hex (n : Nat) : String := String.ofList (Nat.toDigits 16 n)

def miniKvmHandleIo (host : Host) (t : Thread) : MiniKVMError × Thread :=
  if t.run.io.direction = kvmExitIoOut then
    if t.run.io.port = 0x3f8 then
      -- one byte, whatever `io.size` and `io.count` are
      (.success, { t with out := t.out ++ [t.run.bytes t.run.io.dataOffset.toNat] })
    else
      (.internalError,
        t.log host .error ("mini_kvm: unhandled out io port on port " ++ hex t.run.io.port.toNat))
  else (.success, t)

/-- The switch of kvm_vcpu_thread_run. -/
def switchExit (host : Host) (t : Thread) : Thread :=
  match t.run.exit with
  | .hlt => (t.log host .trace "KVM: exit hlt").setState .shutdown
  | .io _ _ =>
    match miniKvmHandleIo host t with
    | (.success, t) => t
    | (_, t) => t.setState .shutdown
  | .shutdown => (t.log host .error "KVM: exit shutdown").setState .shutdown
  | .internalError =>
    let t := (t.log host .error "KVM: exit internal error").setState .shutdown
    { t with out := t.out ++ host.printRegs t.now }
  | .intr => t.log host .trace "KVM: exit INTR"
  | .failEntry => (t.log host .error "KVM: exit failed entry").setState .shutdown
  | .unknown => t.log host .trace "KVM: exit unknown"
  | .other =>
    t.log host .trace ("KVM: exit unhandled " ++ toString t.run.exitReason.toInt32)

/-- One round of the loop: a call of KVM_RUN and what follows it. -/
def round (host : Host) (t : Thread) (outcome : Outcome) : Thread :=
  if t.state ≠ .running then t
  else
    -- `ret` is a MiniKVMError, which gcc makes unsigned
    let ret := outcome.ret.toUInt32
    let t := { t with run := outcome.kvmRun t.run }
    if ret < 0 then (t.log host .error "failed to run VM").setState .shutdown
    else
      let t := switchExit host t
      { t with handled := t.handled ++ [t.run] }

def kvmVcpuThreadRun (host : Host) (t : Thread) (outcomes : List Outcome) : Thread :=
  outcomes.foldl (round host) t

/-! ## What one round does -/

/-- The exit stops the VM. -/
def KvmRun.shutsDown (run : KvmRun) : Bool := run.exit.shutsDown

/-- The call comes back with an exit that stops the VM. -/
def Outcome.shutsDown : Outcome → Bool
  | .exit run => run.shutsDown
  | .interrupted | .failed => false

section Rounds

variable {host : Host} {t : Thread} {o : Outcome}

theorem KvmRun.io_of_exit {run : KvmRun} {out : Bool} {port : UInt16} (h : run.exit = .io out port) :
    out = decide (run.io.direction = kvmExitIoOut) ∧ port = run.io.port := by
  unfold KvmRun.exit at h
  split_ifs at h
  cases h
  exact ⟨rfl, rfl⟩

/-- What mini_kvm_handle_io returns is what the loop among the other threads takes it to be. -/
theorem miniKvmHandleIo_fst (host : Host) (t : Thread) :
    (miniKvmHandleIo host t).1 =
      Server.miniKvmHandleIo (t.run.io.direction = kvmExitIoOut) t.run.io.port := by
  unfold miniKvmHandleIo Server.miniKvmHandleIo
  split_ifs <;> simp_all

theorem miniKvmHandleIo_frame (host : Host) (t : Thread) :
    (miniKvmHandleIo host t).2.state = t.state ∧ (miniKvmHandleIo host t).2.run = t.run ∧
      (miniKvmHandleIo host t).2.handled = t.handled := by
  unfold miniKvmHandleIo
  split_ifs <;> exact ⟨rfl, rfl, rfl⟩

/-- The switch stops the VM on the exits that say so, and touches nothing but `kvm->state` and
standard output. -/
theorem switchExit_effects (host : Host) (t : Thread) :
    (switchExit host t).state = (if t.run.shutsDown then .shutdown else t.state) ∧
      (switchExit host t).run = t.run ∧ (switchExit host t).handled = t.handled := by
  unfold switchExit KvmRun.shutsDown
  cases kind : t.run.exit with
  | io out port =>
    obtain ⟨rfl, rfl⟩ := KvmRun.io_of_exit kind
    have ret := miniKvmHandleIo_fst host t
    obtain ⟨state, run, handled⟩ := miniKvmHandleIo_frame host t
    simp only [ExitReason.shutsDown, ← ret]
    split
    · next t' handles =>
      simp only [handles] at state run handled ⊢
      exact ⟨state, run, handled⟩
    · next e t' failed handles =>
      simp only [handles] at run handled ⊢
      refine ⟨?_, run, handled⟩
      rw [if_pos (bne_iff_ne.mpr fun success => ?_)]
      · rfl
      · exact failed success
  | _ => exact ⟨rfl, rfl, rfl⟩

/-- The test of `ret` never holds. -/
theorem ret_not_negative (o : Outcome) : ¬ o.ret.toUInt32 < 0 := by
  cases o <;> exact of_decide_eq_false rfl

theorem round_stopped (stopped : t.state ≠ .running) : round host t o = t :=
  if_pos stopped

theorem round_running (running : t.state = .running) :
    round host t o =
      { switchExit host { t with run := o.kvmRun t.run } with
        handled := t.handled ++ [o.kvmRun t.run] } := by
  obtain ⟨-, run, handled⟩ := switchExit_effects host { t with run := o.kvmRun t.run }
  unfold round
  rw [if_neg (not_not.mpr running)]
  simp only [ret_not_negative, if_false, run, handled]

theorem round_effects (host : Host) (o : Outcome) (running : t.state = .running) :
    (round host t o).state = (if (o.kvmRun t.run).shutsDown then .shutdown else .running) ∧
      (round host t o).run = o.kvmRun t.run ∧
      (round host t o).handled = t.handled ++ [o.kvmRun t.run] := by
  rw [round_running running]
  obtain ⟨v, run, handled, out⟩ := t
  cases running
  obtain ⟨state, area, -⟩ :=
    switchExit_effects host ⟨.running, o.kvmRun run, handled, out⟩
  exact ⟨state, area, rfl⟩

end Rounds

/-! ## Runs -/

section Runs

variable {host : Host} {t : Thread}

/-- A thread that still runs has an exit in its area that it survived. -/
def Survived (t : Thread) : Prop := t.state = .running → t.run.shutsDown = false

theorem survived_init : Survived .init := fun _ => rfl

theorem survived_round (host : Host) (o : Outcome) (before : Survived t) :
    Survived (round host t o) := by
  intro running
  by_cases here : t.state = .running
  · obtain ⟨state, run, -⟩ := round_effects host o here
    rw [state] at running
    rw [run]
    simpa using running
  · rw [round_stopped here] at running ⊢
    exact before running

/-- A failed call finds an exit that the thread has survived before, and survives it again. -/
theorem kvmRun_shutsDown {o : Outcome} (before : t.run.shutsDown = false) :
    (o.kvmRun t.run).shutsDown = o.shutsDown := by
  cases o with
  | exit run => rfl
  | interrupted => rfl
  | failed => exact before

theorem run_stopped {outcomes : List Outcome} (stopped : t.state ≠ .running) :
    kvmVcpuThreadRun host t outcomes = t := by
  induction outcomes with
  | nil => rfl
  | cons o outcomes ih =>
    rw [kvmVcpuThreadRun, List.foldl_cons, round_stopped stopped]
    exact ih

theorem run_append (as bs : List Outcome) :
    kvmVcpuThreadRun host t (as ++ bs) =
      kvmVcpuThreadRun host (kvmVcpuThreadRun host t as) bs :=
  List.foldl_append

/-- The thread runs until an exit that stops the VM; no failed call ends it. -/
theorem running_iff {outcomes : List Outcome} (before : Survived t) :
    (kvmVcpuThreadRun host t outcomes).state = .running ↔
      t.state = .running ∧ ∀ o ∈ outcomes, o.shutsDown = false := by
  induction outcomes generalizing t with
  | nil => simp [kvmVcpuThreadRun]
  | cons o outcomes ih =>
    have rest := ih (survived_round host o before)
    rw [kvmVcpuThreadRun, List.foldl_cons]
    rw [kvmVcpuThreadRun] at rest
    rw [rest]
    by_cases here : t.state = .running
    · obtain ⟨state, -, -⟩ := round_effects host o here
      rw [state, kvmRun_shutsDown (before here)]
      simp [here]
    · rw [round_stopped here]
      simp [here]

end Runs

/-! ## Among the other threads -/

section Server

variable {n : Nat} {host : Host}

/-- The steps of thread `i` of the server in one round. -/
def roundEvents (i : Fin n) (t : Thread) (o : Outcome) : List (Event n) :=
  [.vcpu i, .vcpu i, .vcpu i, .exit i o.ret.toUInt32 (o.kvmRun t.run).exit, .vcpu i]

/-- Thread `i` of the server is between two rounds, and sees the same `kvm->state`. -/
structure Matches (s : State n) (i : Fin n) (t : Thread) : Prop where
  here : s.vcpus i = .testShutdown
  state : s.kvm.state = t.state
  alive : s.killed = false

theorem round_matches (host : Host) {s : State n} {i : Fin n} {t : Thread} (sim : Matches s i t)
    (running : t.state = .running) (o : Outcome) :
    ∃ u, (system n).run s (roundEvents i t o) = some u ∧ Matches u i (round host t o) := by
  obtain ⟨here, state, alive⟩ := sim
  obtain ⟨after, -, -⟩ := round_effects host o running
  rw [running] at state
  unfold roundEvents
  by_cases shuts : (o.kvmRun t.run).exit.shutsDown
  · refine ⟨(s.setState .shutdown).goto i .testShutdown, ?_, ?_, ?_, ?_⟩
    · simp [Lib.Lts.System.run, system, step, live, alive, Server.kvmVcpuThreadRun, exitStep, here,
        state, State.goto, State.setState, shuts]
    · simp [State.goto]
    · rw [after, KvmRun.shutsDown, if_pos shuts]
      rfl
    · exact alive
  · refine ⟨s.goto i .testShutdown, ?_, ?_, ?_, alive⟩
    · simp [Lib.Lts.System.run, system, step, live, alive, Server.kvmVcpuThreadRun, exitStep, here,
        state, State.goto, shuts]
    · simp [State.goto]
    · rw [after, KvmRun.shutsDown, if_neg shuts]
      exact state

/-- What the thread does alone it can do in the server, with the same `kvm->state` after every
round. -/
theorem run_matches {s : State n} {i : Fin n} {t : Thread} (sim : Matches s i t)
    (outcomes : List Outcome) :
    ∃ es u, (system n).run s es = some u ∧ Matches u i (kvmVcpuThreadRun host t outcomes) := by
  induction outcomes generalizing s t with
  | nil => exact ⟨[], s, rfl, sim⟩
  | cons o outcomes ih =>
    by_cases running : t.state = .running
    · obtain ⟨v, first, next⟩ := round_matches host sim running o
      obtain ⟨es, u, rest, last⟩ := ih next
      exact ⟨_, u, (system n).run_append.mpr ⟨v, first, rest⟩, last⟩
    · rw [run_stopped running]
      exact ⟨[], s, rfl, sim⟩

end Server

end MiniKvm.Source.VcpuThread
