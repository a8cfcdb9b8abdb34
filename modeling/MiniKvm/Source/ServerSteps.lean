import MiniKvm.Source.Server

/-!
# What a step of the server can do

`step_cases` is the only place that takes `step` apart: every invariant of the server goes through
it, and through the field lemmas of `Op.exec`.
-/
namespace MiniKvm.Source.Server
open Lib.Sync

variable {n : Nat}

/-! ## Updates of one thread -/

namespace State

@[simp] theorem goto_kvm (s : State n) (i : Fin n) (pc : VcpuPc) : (s.goto i pc).kvm = s.kvm := rfl

@[simp] theorem goto_main (s : State n) (i : Fin n) (pc : VcpuPc) : (s.goto i pc).main = s.main :=
  rfl

@[simp] theorem goto_res (s : State n) (i : Fin n) (pc : VcpuPc) : (s.goto i pc).res = s.res := rfl

@[simp] theorem goto_pending (s : State n) (i : Fin n) (pc : VcpuPc) :
    (s.goto i pc).pending = s.pending := rfl

@[simp] theorem goto_killed (s : State n) (i : Fin n) (pc : VcpuPc) :
    (s.goto i pc).killed = s.killed := rfl

theorem goto_vcpus (s : State n) (i j : Fin n) (pc : VcpuPc) :
    (s.goto i pc).vcpus j = if j = i then pc else s.vcpus j := by
  simp only [goto, Function.update_apply]

@[simp] theorem setState_main (s : State n) (v : VMState) : (s.setState v).main = s.main := rfl

@[simp] theorem setState_vcpus (s : State n) (v : VMState) : (s.setState v).vcpus = s.vcpus := rfl

@[simp] theorem setState_res (s : State n) (v : VMState) : (s.setState v).res = s.res := rfl

@[simp] theorem setState_pending (s : State n) (v : VMState) :
    (s.setState v).pending = s.pending := rfl

@[simp] theorem setState_killed (s : State n) (v : VMState) :
    (s.setState v).killed = s.killed := rfl

@[simp] theorem setState_kvm (s : State n) (v : VMState) :
    (s.setState v).kvm = { s.kvm with state := v } := rfl

end State

/-! ## Accesses -/

/-- What an access leaves behind in every field but the main thread's position. -/
structure Op.Effect (s : State n) (op : Op n) (t : State n) : Prop where
  state : t.kvm.state = match op with
    | .storeState v => v
    | _ => s.kvm.state
  paused : t.kvm.paused = match op with
    | .storePaused v => v
    | _ => s.kvm.paused
  lock : t.kvm.lock = match op with
    | .lock => ⟨some .main⟩
    | _ => s.kvm.lock
  pauseLock : t.kvm.pauseLock = match op with
    | .lockPause => ⟨some .main⟩
    | .unlockPause => .unowned
    | _ => s.kvm.pauseLock
  vcpus : t.vcpus = match op with
    | .pthreadCreate i => Function.update s.vcpus i .setup
    | _ => s.vcpus
  pending : t.pending = match op with
    | .pthreadKill i sig => Function.update s.pending i (s.pending i ++ [sig])
    | _ => s.pending
  res : t.res = match op with
    | .readState => { s.res with state := s.kvm.state }
    | _ => s.res
  killed : t.killed = s.killed
  /-- A lock is taken only when it is free. -/
  free : op = .lockPause → s.kvm.pauseLock.owner = none
  /-- A signal wakes one sleeper, and none only when there is none. -/
  pauseCond : match op with
    | .signalPauseCond =>
      s.kvm.pauseCond.NobodyAsleep ∧ t.kvm.pauseCond = s.kvm.pauseCond ∨
        ∃ i, s.kvm.pauseCond.wake i = some t.kvm.pauseCond
    | _ => t.kvm.pauseCond = s.kvm.pauseCond

theorem Op.Effect.paused_cases {s t : State n} {op : Op n} (h : op.Effect s t) :
    (∃ v, op = .storePaused v ∧ t.kvm.paused = v) ∨ t.kvm.paused = s.kvm.paused := by
  have := h.paused
  cases op <;> simp_all

theorem Op.Effect.state_cases {s t : State n} {op : Op n} (h : op.Effect s t) :
    (∃ v, op = .storeState v ∧ t.kvm.state = v) ∨ t.kvm.state = s.kvm.state := by
  have := h.state
  cases op <;> simp_all

theorem Op.effect {s t : State n} {op : Op n} (pc : MainPc n) (h : op.exec s = some t) :
    op.Effect s { t with main := pc } := by
  cases op with
  | lock =>
    obtain ⟨m, hm, rfl⟩ := Option.map_eq_some_iff.mp h
    obtain ⟨-, rfl⟩ := Mutex.lock_eq_some.mp hm
    constructor <;> simp
  | lockPause =>
    obtain ⟨m, hm, rfl⟩ := Option.map_eq_some_iff.mp h
    obtain ⟨free, rfl⟩ := Mutex.lock_eq_some.mp hm
    constructor <;> simp [free]
  | signalPauseCond =>
    simp only [Op.exec] at h
    split at h
    · next unheard => cases h; constructor <;> simp [unheard]
    · cases h
  | getRegs i =>
    simp only [Op.exec] at h
    split at h
    · cases h
    · cases h; constructor <;> simp
  | _ =>
    cases h
    constructor <;> simp [Mutex.unlock, State.goto]

/-! ## Inversion -/

/-- What a vcpu thread does when it is scheduled. -/
inductive VcpuStep (s : State n) (i : Fin n) : State n → Prop where
  | setup (at_ : s.vcpus i = .setup) : VcpuStep s i (s.goto i .testShutdown)
  | ends (at_ : s.vcpus i = .testShutdown) (down : s.kvm.state = .shutdown) :
    VcpuStep s i (s.goto i .ended)
  | goesOn (at_ : s.vcpus i = .testShutdown) (up : s.kvm.state ≠ .shutdown) :
    VcpuStep s i (s.goto i .testPaused)
  | seesPaused (at_ : s.vcpus i = .testPaused) (paused : s.kvm.state = .paused) :
    VcpuStep s i (s.goto i .testFlag)
  | passes (at_ : s.vcpus i = .testPaused) (unpaused : s.kvm.state ≠ .paused) :
    VcpuStep s i (s.goto i .enterRun)
  | seesFlag (at_ : s.vcpus i = .testFlag) (flag : s.kvm.paused ≠ 0) :
    VcpuStep s i (s.goto i .callWait)
  | noFlag (at_ : s.vcpus i = .testFlag) (flag : s.kvm.paused = 0) :
    VcpuStep s i (s.goto i .testShutdown)
  | waits (at_ : s.vcpus i = .callWait) :
    VcpuStep s i { s.goto i .waiting with
      kvm := { s.kvm with
        pauseLock := s.kvm.pauseLock.unlock
        pauseCond := s.kvm.pauseCond.wait i } }
  | wakes (at_ : s.vcpus i = .waiting) (woken : s.kvm.pauseCond.waiter i = some .woken)
    (unowned : s.kvm.pauseLock.owner = none) :
    VcpuStep s i { s.goto i .testFlag with
      kvm := { s.kvm with
        pauseLock := ⟨some (.vcpu i)⟩
        pauseCond := s.kvm.pauseCond.leave i } }
  | enters (at_ : s.vcpus i = .enterRun) : VcpuStep s i (s.goto i .inRun)
  | stops {ret : UInt32} {reason : ExitReason} (at_ : s.vcpus i = .exited ret reason)
    (stop : reason.shutsDown = true) : VcpuStep s i ((s.setState .shutdown).goto i .testShutdown)
  | returns {ret : UInt32} {reason : ExitReason} (at_ : s.vcpus i = .exited ret reason)
    (stay : reason.shutsDown = false) : VcpuStep s i (s.goto i .testShutdown)

theorem vcpuStep_of_run {s t : State n} {i : Fin n} (h : kvmVcpuThreadRun s i = some t) :
    VcpuStep s i t := by
  unfold kvmVcpuThreadRun at h
  split at h
  · cases h
  · cases h
  · cases h
  case h_4 at_ =>
    cases h
    exact .setup at_
  case h_5 at_ =>
    cases h
    split
    · next down => exact .ends at_ down
    · next up => exact .goesOn at_ up
  case h_6 at_ =>
    cases h
    split
    · next paused => exact .seesPaused at_ paused
    · next unpaused => exact .passes at_ unpaused
  case h_7 at_ =>
    cases h
    split
    · next flag => exact .noFlag at_ flag
    · next flag => exact .seesFlag at_ flag
  case h_8 at_ =>
    cases h
    exact .waits at_
  case h_9 at_ =>
    split at h
    · next woken =>
      obtain ⟨m, hm, rfl⟩ := Option.map_eq_some_iff.mp h
      obtain ⟨unowned, rfl⟩ := Mutex.lock_eq_some.mp hm
      exact .wakes at_ woken unowned
    · cases h
  case h_10 at_ =>
    cases h
    exact .enters at_
  case h_11 ret reason at_ =>
    -- the comparison with 0 never holds: `ret` has no sign
    have unsigned : ¬ ret < 0 := by simp [UInt32.lt_iff_toNat_lt]
    rw [if_neg unsigned] at h
    split at h
    · next stop => cases h; exact .stops at_ stop
    · next stay => cases h; exact .returns at_ (by simpa using stay)

/-- A step on the side of vcpu `i`: of its thread, of KVM, or of a signal sent to it. -/
inductive VcpuSide (s : State n) (i : Fin n) : Event n → State n → Prop where
  | thread {t : State n} (moves : VcpuStep s i t) : VcpuSide s i (.vcpu i) t
  | exit (ret : UInt32) (reason : ExitReason) (inside : s.vcpus i = .inRun) :
    VcpuSide s i (.exit i ret reason) (s.goto i (.exited ret reason))
  | interrupts {sig : VMSignal} (sent : sig ∈ s.pending i) (inside : s.vcpus i = .inRun) :
    VcpuSide s i (.deliver i sig)
      ({ s with pending := Function.update s.pending i ((s.pending i).erase sig) }.goto i
        (.exited (-1) .intr))
  | consumed {sig : VMSignal} (sent : sig ∈ s.pending i) (outside : s.vcpus i ≠ .inRun) :
    VcpuSide s i (.deliver i sig)
      { s with pending := Function.update s.pending i ((s.pending i).erase sig) }

/-- What a step on the side of vcpu `i` leaves alone. -/
structure VcpuFrame (s : State n) (i : Fin n) (t : State n) : Prop where
  main : t.main = s.main
  paused : t.kvm.paused = s.kvm.paused
  lock : t.kvm.lock = s.kvm.lock
  res : t.res = s.res
  killed : t.killed = s.killed
  state : t.kvm.state = s.kvm.state ∨ t.kvm.state = .shutdown
  others : ∀ j, j ≠ i → t.vcpus j = s.vcpus j
  waiters : ∀ j, j ≠ i → t.kvm.pauseCond.waiter j = s.kvm.pauseCond.waiter j
  signals : ∀ j, j ≠ i → t.pending j = s.pending j

theorem VcpuSide.frame {s t : State n} {e : Event n} {i : Fin n} (h : VcpuSide s i e t) :
    VcpuFrame s i t := by
  cases h with
  | thread moves =>
    cases moves <;> constructor <;>
      simp +contextual [State.goto_vcpus, CondVar.wait_waiter, CondVar.leave_waiter]
  | exit ret reason inside => constructor <;> simp +contextual [State.goto_vcpus]
  | interrupts sent inside => constructor <;> simp +contextual [State.goto_vcpus]
  | consumed sent outside => constructor <;> simp +contextual

/-- The accesses of the two queries that ask for a paused VM. -/
def Op.guarded : Op n → Bool
  | .unlessPausedReturn | .getRegs _ | .dumpMem => true
  | _ => false

theorem Op.guarded_effect (s : State n) (pc : MainPc n) {op : Op n} (h : op.guarded = true) :
    op.Effect s { s with main := pc } := by
  cases op <;> simp only [guarded, Bool.false_eq_true] at h <;> constructor <;> simp

/-- A function goes on with its next access, or its last test ends it. -/
theorem Op.next_cases (s : State n) (task : Task) (ret : MiniKVMError) (rest : List (Op n))
    (op : Op n) :
    op.next s task ret rest = .exec task ret rest ∧
        (op = .ifPaused → s.kvm.paused ≠ 0) ∧ (op = .unlessPausedReturn → s.kvm.state = .paused) ∨
      op = .ifPaused ∧ s.kvm.paused = 0 ∧ op.next s task ret rest = .exec task ret [] ∨
      op = .unlessPausedReturn ∧ s.kvm.state ≠ .paused ∧
        op.next s task ret rest = .exec task .statusCmdVmNotPaused [] := by
  cases op with
  | ifPaused => by_cases flag : s.kvm.paused = 0 <;> simp [Op.next, flag]
  | unlessPausedReturn => by_cases paused : s.kvm.state = .paused <;> simp [Op.next, paused]
  | _ => simp [Op.next]

/-- What kills the process. -/
inductive Kill (s : State n) : Event n → Prop where
  | crash {task : Task} {ret : MiniKVMError} {rest : List (Op n)}
    (at_ : s.main = .exec task ret (.dumpMem :: rest)) : Kill s .crash
  | brokenPipe (at_ : s.main = .replying) : Kill s .brokenPipe
  | signal {i : Fin n} {sig : VMSignal} (sent : sig ∈ s.pending i) (bare : ¬ s.Installed) :
    Kill s (.deliver i sig)

/-- What the server does on an event. -/
inductive StepCases (s : State n) : Event n → State n → Prop where
  | op {e : Event n} {task : Task} {ret : MiniKVMError} {op : Op n} {rest : List (Op n)}
    {t : State n} (at_ : s.main = .exec task ret (op :: rest)) (effect : op.Effect s t)
    (next : t.main = op.next s task ret rest)
    (event : e = .main ∨ op = .signalPauseCond ∧ ∃ i, e = .wake i) : StepCases s e t
  | finish {task : Task} {ret : MiniKVMError} (at_ : s.main = .exec task ret []) :
    StepCases s .main (finish s ret task)
  | leave (at_ : s.main = .loopTest) (down : s.kvm.state = .shutdown) :
    StepCases s .main { s with main := .left }
  | loop (at_ : s.main = .loopTest) (up : s.kvm.state ≠ .shutdown) :
    StepCases s .main { s with main := .accepting }
  | createFails {task : Task} {ret : MiniKVMError} {i : Fin n} {rest : List (Op n)}
    (at_ : s.main = .exec task ret (.pthreadCreate i :: rest)) :
    StepCases s .fails { s with main := .exec task .failedRun [.storeState .running] }
  | queryFails {task : Task} {ret : MiniKVMError} {op : Op n} {rest : List (Op n)}
    (at_ : s.main = .exec task ret (op :: rest)) (query : op.guarded = true) :
    StepCases s .fails { s with main := .exec task .internalError [] }
  | accept (connected : Bool) (at_ : s.main = .accepting) :
    StepCases s (.accept connected)
      { s with main := if connected then .receiving else .sigTest }
  | recv (cmd : MiniKvmStatusCommand) (at_ : s.main = .receiving) :
    StepCases s (.recv (some cmd))
      { s with main := .exec (.command cmd) .success (miniKvmStatusHandleCommand cmd) }
  | recvEnd (at_ : s.main = .receiving) : StepCases s (.recv none) { s with main := .sigTest }
  | reply (at_ : s.main = .replying) : StepCases s .reply { s with main := .receiving }
  | caught (at_ : s.main = .sigTest) :
    StepCases s (.sigTest true) { s with main := .exec .signalBranch .success signalBranch }
  | uncaught (at_ : s.main = .sigTest) : StepCases s (.sigTest false) { s with main := .loopTest }
  | kills {e : Event n} (kill : Kill s e) : StepCases s e { s with killed := true }
  | vcpu {e : Event n} {i : Fin n} {t : State n} (side : VcpuSide s i e t) : StepCases s e t

theorem step_eq_some {s t : State n} {e : Event n} :
    step s e = some t ↔ s.killed = false ∧ live s e = some t := by
  unfold step
  split <;> simp_all

theorem step_of_alive {s : State n} (alive : s.killed = false) (e : Event n) : step s e = live s e := by
  rw [step, alive, if_neg Bool.false_ne_true]

/-! The events on the sockets. -/

section Sockets

variable {s t : State n}

theorem accept_eq_some {connected : Bool} :
    step s (.accept connected) = some t ↔ s.killed = false ∧ s.main = .accepting ∧
      { s with main := if connected then .receiving else .sigTest } = t := by
  rw [step_eq_some]
  simp only [live, Option.ite_none_right_eq_some, Option.some.injEq]

theorem recv_eq_some {cmd : MiniKvmStatusCommand} :
    step s (.recv (some cmd)) = some t ↔ s.killed = false ∧ s.main = .receiving ∧
      { s with main := .exec (.command cmd) .success (miniKvmStatusHandleCommand cmd) } = t := by
  rw [step_eq_some]
  simp only [live, Option.ite_none_right_eq_some, Option.some.injEq]

theorem recvEnd_eq_some : step s (.recv none) = some t ↔
    s.killed = false ∧ s.main = .receiving ∧ { s with main := .sigTest } = t := by
  rw [step_eq_some]
  simp only [live, Option.ite_none_right_eq_some, Option.some.injEq]

theorem reply_eq_some : step s .reply = some t ↔
    s.killed = false ∧ s.main = .replying ∧ { s with main := .receiving } = t := by
  rw [step_eq_some]
  simp only [live, Option.ite_none_right_eq_some, Option.some.injEq]

theorem brokenPipe_eq_some : step s .brokenPipe = some t ↔
    s.killed = false ∧ s.main = .replying ∧ { s with killed := true } = t := by
  rw [step_eq_some]
  simp only [live, Option.ite_none_right_eq_some, Option.some.injEq]

end Sockets

theorem step_cases {s t : State n} {e : Event n} (h : step s e = some t) : StepCases s e t := by
  obtain ⟨-, h⟩ := step_eq_some.mp h
  cases e with
  | main =>
    change mainStep s = some t at h
    unfold mainStep at h
    split at h
    · next at_ => cases h; exact .finish at_
    · next at_ =>
      obtain ⟨u, hu, rfl⟩ := Option.map_eq_some_iff.mp h
      exact .op at_ (Op.effect _ hu) rfl (.inl rfl)
    · next at_ =>
      cases h
      split
      · next down => exact .leave at_ down
      · next up => exact .loop at_ up
    · cases h
  | wake i =>
    change wakeStep s i = some t at h
    unfold wakeStep at h
    split at h
    · next at_ =>
      obtain ⟨c, hc, rfl⟩ := Option.map_eq_some_iff.mp h
      refine .op at_ ?_ rfl (.inr ⟨rfl, i, rfl⟩)
      constructor <;> simp
      exact .inr ⟨i, hc⟩
    · cases h
  | fails =>
    change failStep s = some t at h
    unfold failStep at h
    split at h
    · next at_ => cases h; exact .createFails at_
    · next at_ =>
      split at h
      · cases h
      · cases h; exact .queryFails at_ rfl
    · next at_ => cases h; exact .queryFails at_ rfl
    · cases h
  | crash =>
    change crashStep s = some t at h
    unfold crashStep at h
    split at h
    · next at_ => cases h; exact .kills (.crash at_)
    · cases h
  | accept connected =>
    simp only [live] at h
    split at h
    · next at_ => cases h; exact .accept connected at_
    · cases h
  | recv cmd =>
    simp only [live] at h
    split at h
    · next at_ =>
      cases h
      cases cmd with
      | none => exact .recvEnd at_
      | some cmd => exact .recv cmd at_
    · cases h
  | reply =>
    simp only [live] at h
    split at h
    · next at_ => cases h; exact .reply at_
    · cases h
  | brokenPipe =>
    simp only [live] at h
    split at h
    · next at_ => cases h; exact .kills (.brokenPipe at_)
    · cases h
  | sigTest caught =>
    simp only [live] at h
    split at h
    · next at_ =>
      cases h
      cases caught with
      | true => exact .caught at_
      | false => exact .uncaught at_
    · cases h
  | vcpu i => exact .vcpu (.thread (vcpuStep_of_run h))
  | exit i ret reason =>
    simp only [live, exitStep] at h
    split at h
    · next inside => cases h; exact .vcpu (.exit ret reason inside)
    · cases h
  | deliver i sig =>
    simp only [live, deliverStep] at h
    split at h
    · next sent =>
      split at h
      · cases h
        split
        · next inside => exact .vcpu (.interrupts sent inside)
        · next outside => exact .vcpu (.consumed sent outside)
      · next bare => cases h; exact .kills (.signal sent bare)
    · cases h

/-! ## The events of the vcpus -/

/-- The events of the vcpus: of their threads, of the signals on their way and of their guests. -/
def ofVcpus : Event n → Bool
  | .vcpu _ | .exit _ _ _ | .deliver _ _ => true
  | _ => false

/-- An event of the vcpus is a step on the side of one, or the end of the process. -/
theorem side_of_vcpus {s t : State n} {e : Event n} (of : ofVcpus e = true) (h : step s e = some t) :
    (∃ i, VcpuSide s i e t) ∨
      t = { s with killed := true } ∧ ¬ s.Installed ∧ ∃ i, s.pending i ≠ [] := by
  cases step_cases h with
  | op at_ effect next event => rcases event with rfl | ⟨-, i, rfl⟩ <;> cases of
  | kills kill =>
    cases kill with
    | @signal i sig sent bare => exact .inr ⟨rfl, bare, i, List.ne_nil_of_mem sent⟩
    | crash | brokenPipe => cases of
  | vcpu side => exact .inl ⟨_, side⟩
  | _ => cases of

/-- The handlers stay installed. -/
theorem VcpuSide.installed {s t : State n} {e : Event n} {i : Fin n} (side : VcpuSide s i e t)
    (before : s.Installed) : t.Installed := by
  obtain ⟨j, born, past⟩ := before
  refine ⟨j, ?_⟩
  by_cases same : j = i
  · subst same
    cases side with
    | thread moves => cases moves <;> simp_all [State.goto_vcpus]
    | consumed => exact ⟨born, past⟩
    | _ => simp [State.goto_vcpus]
  · rw [side.frame.others j same]
    exact ⟨born, past⟩

/-! ## The position of the main thread -/

/-- The main thread is in `task`, with `rest` to come. -/
def State.In (s : State n) (task : Task) (rest : List (Op n)) : Prop :=
  ∃ ret, s.main = .exec task ret rest

/-- How the main thread comes to have `rest` of `task` to come. -/
inductive Arrives (s : State n) (e : Event n) (t : State n) (task : Task) :
    List (Op n) → Prop where
  | stays {i : Fin n} {rest : List (Op n)} (same : s.In task rest) (side : VcpuSide s i e t) :
    Arrives s e t task rest
  | runs {op : Op n} {rest : List (Op n)} (was : s.In task (op :: rest)) (effect : op.Effect s t)
    (flag : op = .ifPaused → s.kvm.paused ≠ 0)
    (paused : op = .unlessPausedReturn → s.kvm.state = .paused) : Arrives s e t task rest
  | skips {rest : List (Op n)} (was : s.In task (.ifPaused :: rest)) (flag : s.kvm.paused = 0)
    (effect : Op.ifPaused.Effect s t) : Arrives s e t task []
  | refuses {op : Op n} {rest : List (Op n)} (was : s.In task (op :: rest))
    (query : op.guarded = true) (effect : op.Effect s t) : Arrives s e t task []
  | gives {i : Fin n} {rest : List (Op n)} (was : s.In task (.pthreadCreate i :: rest))
    (only : t = { s with main := t.main }) : Arrives s e t task [.storeState .running]
  | begins {cmd : MiniKvmStatusCommand} (was : s.main = .receiving) (isCommand : task = .command cmd)
    (only : t = { s with main := t.main }) : Arrives s e t task (miniKvmStatusHandleCommand cmd)
  | catches (was : s.main = .sigTest) (isBranch : task = .signalBranch)
    (only : t = { s with main := t.main }) : Arrives s e t task signalBranch
  | halts {rest : List (Op n)} (same : s.In task rest) (only : t = { s with killed := true }) :
    Arrives s e t task rest

theorem finish_main (s : State n) (ret : MiniKVMError) (task : Task) :
    (finish s ret task).main = .loopTest ∨ (finish s ret task).main = .left ∨
      (finish s ret task).main = .replying := by
  cases task <;> simp only [finish]
  · split <;> simp
  all_goals simp

section
variable (s : State n) (ret : MiniKVMError) (task : Task)

@[simp] theorem finish_vcpus : (finish s ret task).vcpus = s.vcpus := by
  cases task <;> rfl

@[simp] theorem finish_state : (finish s ret task).kvm.state = s.kvm.state := by
  cases task <;> rfl

@[simp] theorem finish_paused : (finish s ret task).kvm.paused = s.kvm.paused := by
  cases task <;> rfl

@[simp] theorem finish_pauseLock : (finish s ret task).kvm.pauseLock = s.kvm.pauseLock := by
  cases task <;> rfl

@[simp] theorem finish_pauseCond : (finish s ret task).kvm.pauseCond = s.kvm.pauseCond := by
  cases task <;> rfl

end

theorem step_in {s t : State n} {e : Event n} (h : step s e = some t) {task : Task}
    {rest : List (Op n)} (here : t.In task rest) : Arrives s e t task rest := by
  obtain ⟨ret, here⟩ := here
  cases step_cases h with
  | @op _ task' ret' op rest' _ at_ effect next event =>
    rw [next] at here
    rcases Op.next_cases s task' ret' rest' op with
      ⟨goes, flag, paused⟩ | ⟨rfl, flag, goes⟩ | ⟨rfl, -, goes⟩ <;>
      rw [goes] at here <;> cases here
    · exact .runs ⟨_, at_⟩ effect flag paused
    · exact .skips ⟨_, at_⟩ flag effect
    · exact .refuses ⟨_, at_⟩ rfl effect
  | @finish task' ret' at_ =>
    rcases finish_main s ret' task' with goes | goes | goes <;> rw [goes] at here <;> cases here
  | leave at_ down => cases here
  | loop at_ up => cases here
  | createFails at_ => cases here; exact .gives ⟨_, at_⟩ rfl
  | queryFails at_ query => cases here; exact .refuses ⟨_, at_⟩ query (Op.guarded_effect s _ query)
  | accept connected at_ => cases connected <;> cases here
  | recv cmd at_ => cases here; exact .begins at_ rfl rfl
  | recvEnd at_ => cases here
  | reply at_ => cases here
  | caught at_ => cases here; exact .catches at_ rfl rfl
  | uncaught at_ => cases here
  | kills => exact .halts ⟨ret, here⟩ rfl
  | vcpu side => exact .stays ⟨ret, side.frame.main ▸ here⟩ side

/-! ## Labels -/

/-- A command of this type is being handled. -/
def State.handles (s : State n) (type : CommandType) : Bool :=
  match s.main with
  | .exec (.command cmd) _ _ => cmd.type = type
  | _ => false

/-- mini_kvm_start_vm has an access to come. -/
def State.starting (s : State n) : Bool :=
  match s.main with
  | .exec .startVm _ (_ :: _) => true
  | _ => false

theorem handles_of_main {s t : State n} (same : t.main = s.main) (type : CommandType) :
    t.handles type = s.handles type := by
  simp only [State.handles, same]

theorem handles_finish (s : State n) (ret : MiniKVMError) (task : Task) (type : CommandType) :
    (finish s ret task).handles type = false := by
  rcases finish_main s ret task with goes | goes | goes <;> simp [State.handles, goes]

theorem command_of_handles {s : State n} {task : Task} {ret : MiniKVMError} {rest : List (Op n)}
    {type : CommandType} (at_ : s.main = .exec task ret rest) (busy : s.handles type = true) :
    ∃ cmd, task = .command cmd ∧ cmd.type = type := by
  cases task with
  | command cmd => exact ⟨cmd, rfl, by simpa [State.handles, at_] using busy⟩
  | startVm | signalBranch => simp [State.handles, at_] at busy

/-- An access leaves the main thread in the same command. -/
theorem handles_op {s t : State n} {task : Task} {ret : MiniKVMError} {op : Op n}
    {rest : List (Op n)} (at_ : s.main = .exec task ret (op :: rest))
    (next : t.main = op.next s task ret rest) (type : CommandType) :
    t.handles type = s.handles type := by
  rcases Op.next_cases s task ret rest op with ⟨goes, -⟩ | ⟨-, -, goes⟩ | ⟨-, -, goes⟩ <;>
    cases task <;> simp only [State.handles, next, goes, at_]

theorem label_op {s : State n} {e : Event n} {task : Task} {ret : MiniKVMError} {op : Op n}
    {rest : List (Op n)} (at_ : s.main = .exec task ret (op :: rest))
    (event : e = .main ∨ op = .signalPauseCond ∧ ∃ i, e = .wake i) : label s e = none := by
  rcases event with rfl | ⟨-, i, rfl⟩
  · simp [label, at_]
  · rfl

/-- The label of the return of a task. -/
def Task.returned (ret : MiniKVMError) : Task → Option Label
  | .command cmd => some (.returned cmd.type ret)
  | .startVm | .signalBranch => none

theorem label_finish {s : State n} {task : Task} {ret : MiniKVMError}
    (at_ : s.main = .exec task ret []) : label s .main = task.returned ret := by
  cases task <;> simp [label, at_, Task.returned]

theorem label_vcpu {s t : State n} {e : Event n} {i : Fin n} (side : VcpuSide s i e t) :
    label s e = none := by
  cases side <;> rfl

theorem label_kill {s : State n} {e : Event n} (kill : Kill s e) : label s e = none := by
  cases kill <;> rfl

/-- The steps of `step_cases`, as far as a property of the trace and of the command in progress
tells them apart. -/
inductive TraceCases (s : State n) (e : Event n) (t : State n) : Prop where
  | op {task : Task} {ret : MiniKVMError} {op : Op n} {rest : List (Op n)}
    (at_ : s.main = .exec task ret (op :: rest)) (effect : op.Effect s t)
    (next : t.main = op.next s task ret rest) (unlabelled : label s e = none)
    (event : e = .main ∨ op = .signalPauseCond ∧ ∃ i, e = .wake i)
  | finish {task : Task} {ret : MiniKVMError} (at_ : s.main = .exec task ret [])
    (event : e = .main) (result : t = finish s ret task)
  | recv {cmd : MiniKvmStatusCommand} (at_ : s.main = .receiving) (event : e = .recv (some cmd))
    (result : t = { s with main := .exec (.command cmd) .success (miniKvmStatusHandleCommand cmd) })
  /-- The main thread goes to another place, without an access. -/
  | moves (only : t = { s with main := t.main }) (unlabelled : label s e = none)
    (handles : ∀ type, t.handles type = s.handles type)
    (gives : ∀ task ret rest, s.main = .exec task ret rest →
      ∃ op, rest.head? = some op ∧ (op.guarded = true ∨ ∃ i, op = .pthreadCreate i))
  | kills (only : t = { s with killed := true }) (unlabelled : label s e = none)
  | vcpu {i : Fin n} (side : VcpuSide s i e t) (unlabelled : label s e = none)

theorem trace_cases {s t : State n} {e : Event n} (h : step s e = some t) : TraceCases s e t := by
  cases step_cases h with
  | op at_ effect next event => exact .op at_ effect next (label_op at_ event) event
  | finish at_ => exact .finish at_ rfl rfl
  | recv cmd at_ => exact .recv at_ rfl rfl
  | kills kill => exact .kills rfl (label_kill kill)
  | vcpu side => exact .vcpu side (label_vcpu side)
  | @createFails task _ i _ at_ =>
    refine .moves rfl (by simp [label]) (fun type => ?_) ?_
    · cases task <;> simp [State.handles, at_]
    · simp only [at_]
      rintro task ret rest ⟨⟩
      exact ⟨_, rfl, .inr ⟨i, rfl⟩⟩
  | @queryFails task _ op _ at_ query =>
    refine .moves rfl (by simp [label]) (fun type => ?_) ?_
    · cases task <;> simp [State.handles, at_]
    · simp only [at_]
      rintro task ret rest ⟨⟩
      exact ⟨op, rfl, .inl query⟩
  | accept connected at_ =>
    exact .moves rfl (by simp [label])
      (fun type => by cases connected <;> simp [State.handles, at_]) (by simp [at_])
  | leave at_ | loop at_ | recvEnd at_ | reply at_ | caught at_ | uncaught at_ =>
    exact .moves rfl (by simp [label, at_]) (fun type => by simp [State.handles, at_])
      (by simp [at_])

end MiniKvm.Source.Server
