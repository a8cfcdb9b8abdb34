import MiniKvm.Guarantees.Joining

/-!
# Two ways to shut down

The SHUTDOWN handler and the signal branch of run_main_loop both store MINI_KVM_SHUTDOWN and send
SIGVMSHUTDOWN. Only the handler goes on to mini_kvm_resume_vm when the VM is paused. Both are run
here from one state, with no other thread in between, and followed by whatever the vcpu threads do
while mini_kvm_clean_kvm waits for them in pthread_join. A thread that is held up for good, as one
that has interrupted itself inside the logger, is only joined when it has ended.
-/
namespace MiniKvm.Guarantees.ShutdownPaths
open Source Source.Server Lib.Sync Joining

variable {n : Nat}

/-- The main thread finishes the function it is in, up to its return, with no other thread in
between. -/
inductive Alone : State n → State n → Prop where
  | done {s : State n} {task : Task} {ret : MiniKVMError} (at_ : s.main = .exec task ret []) :
    Alone s s
  | step {s u t : State n} {e : Event n} {task : Task} {ret : MiniKVMError} {op : Op n}
    {rest : List (Op n)} (at_ : s.main = .exec task ret (op :: rest))
    (event : e = .main ∨ ∃ i, e = .wake i) (h : step s e = some u) (more : Alone u t) : Alone s t

/-- `task`, called in `s`, leaves `t`. -/
def Completes (s : State n) (task : Task) (t : State n) : Prop :=
  Alone { s with main := .exec task .success task.ops } t

/-- Whatever the vcpus do, their threads can still all return, and pthread_join with them. -/
def Joins (held : Fin n → Prop) (s : State n) : Prop :=
  ∀ es t, (∀ e ∈ es, ofVcpus e = true) → (system n).run s es = some t → CanEndBy (OfOthers held) t

/-- The signal branch and the SHUTDOWN handler end in the same place, and so does the process. -/
structure PathsAgree (held : Fin n → Prop) (s : State n) : Prop where
  returns : ∀ cmd : MiniKvmStatusCommand, cmd.type = .shutdown →
    (∃ b, Completes s .signalBranch b) ∧ ∃ h, Completes s (.command cmd) h
  same : ∀ (cmd : MiniKvmStatusCommand) (b h : State n), cmd.type = .shutdown →
    Completes s .signalBranch b → Completes s (.command cmd) h →
    b.kvm.state = h.kvm.state ∧ b.kvm.paused = h.kvm.paused ∧
      b.kvm.pauseCond = h.kvm.pauseCond ∧ b.kvm.pauseLock = h.kvm.pauseLock
  joins : ∀ (cmd : MiniKvmStatusCommand) (t : State n), cmd.type = .shutdown →
    Completes s .signalBranch t ∨ Completes s (.command cmd) t → Joins held t

/-- Between commands: the process is alive, and run_main_loop in none of the functions. -/
def Idle (s : State n) : Bool :=
  !s.killed && match s.main with
    | .exec _ _ _ | .left => false
    | _ => true

/-- No vcpu thread is asleep in pthread_cond_wait or about to call it, and a thread that is about to
return from it finds `pause_lock` free, with no other thread to take it. -/
structure Unstuck (s : State n) : Prop where
  calls : ∀ i, s.vcpus i ≠ .callWait
  asleep : ∀ i, s.kvm.pauseCond.waiter i ≠ some .asleep
  alone : ∀ i, s.vcpus i = .waiting →
    s.kvm.pauseLock.owner = none ∧ ∀ j, s.vcpus j = .waiting → j = i

/-- SIGVMSHUTDOWN finds its handler, and no vcpu thread that would lose it between the test of
MINI_KVM_PAUSED and KVM_RUN. -/
structure InReach (s : State n) : Prop where
  handlers : 0 < n → s.Installed
  between : ∀ i, s.vcpus i ≠ .testPaused ∧ s.vcpus i ≠ .enterRun

theorem Unstuck.of_same {s t : State n} (before : Unstuck s) (vcpus : t.vcpus = s.vcpus)
    (cond : t.kvm.pauseCond = s.kvm.pauseCond) (lock : t.kvm.pauseLock = s.kvm.pauseLock) :
    Unstuck t := by
  obtain ⟨calls, asleep, alone⟩ := before
  refine ⟨?_, ?_, ?_⟩
  · rwa [vcpus]
  · rwa [cond]
  · rwa [vcpus, lock]

theorem InReach.of_same {s t : State n} (before : InReach s) (vcpus : t.vcpus = s.vcpus) :
    InReach t := by
  obtain ⟨handlers, between⟩ := before
  refine ⟨?_, ?_⟩
  · rwa [State.Installed, vcpus]
  · rwa [vcpus]

/-! ## What the functions leave -/

theorem alone_nil {s t : State n} {task : Task} {ret : MiniKVMError}
    (at_ : s.main = .exec task ret []) (h : Alone s t) : t = s := by
  cases h with
  | done _ => rfl
  | step at' =>
    rw [at_] at at'
    cases at'

theorem alone_cons {s t : State n} {task : Task} {ret : MiniKVMError} {op : Op n}
    {rest : List (Op n)} (at_ : s.main = .exec task ret (op :: rest)) (h : Alone s t) :
    ∃ u, op.Effect s u ∧ u.main = op.next s task ret rest ∧ Alone u t := by
  cases h with
  | done at' =>
    rw [at_] at at'
    cases at'
  | step at' event h more =>
    rcases event with rfl | ⟨i, rfl⟩
    · cases step_cases h with
      | op at' effect next _ =>
        rw [at_] at at'
        cases at'
        exact ⟨_, effect, next, more⟩
      | finish at' | leave at' | loop at' =>
        rw [at_] at at'
        cases at'
      | kills kill => cases kill
      | vcpu side => cases side
    · cases step_cases h with
      | op at' effect next _ =>
        rw [at_] at at'
        cases at'
        exact ⟨_, effect, next, more⟩
      | kills kill => cases kill
      | vcpu side => cases side

/-- What the opening accesses of a function leave alone. -/
structure Kept (s t : State n) : Prop where
  paused : t.kvm.paused = s.kvm.paused
  pauseLock : t.kvm.pauseLock = s.kvm.pauseLock
  pauseCond : t.kvm.pauseCond = s.kvm.pauseCond
  vcpus : t.vcpus = s.vcpus
  killed : t.killed = s.killed

theorem Kept.refl (s : State n) : Kept s s := ⟨rfl, rfl, rfl, rfl, rfl⟩

theorem Kept.trans {s t u : State n} (first : Kept s t) (second : Kept t u) : Kept s u :=
  ⟨second.paused.trans first.paused, second.pauseLock.trans first.pauseLock,
    second.pauseCond.trans first.pauseCond, second.vcpus.trans first.vcpus,
    second.killed.trans first.killed⟩

theorem kept_of_opening {s t : State n} {op : Op n} (effect : op.Effect s t)
    (opening : op = .lock ∨ (∃ v, op = .storeState v) ∨ ∃ i sig, op = .pthreadKill i sig) :
    Kept s t := by
  rcases opening with rfl | ⟨v, rfl⟩ | ⟨i, sig, rfl⟩ <;>
    exact ⟨effect.paused, effect.pauseLock, effect.pauseCond, effect.vcpus, effect.killed⟩

/-- The loop of mini_kvm_send_sig. -/
theorem alone_kills {s t : State n} {task : Task} {ret : MiniKVMError} {rest : List (Op n)}
    {sig : VMSignal} {is : List (Fin n)}
    (at_ : s.main = .exec task ret (is.map (fun i => .pthreadKill i sig) ++ rest))
    (h : Alone s t) :
    ∃ u, Kept s u ∧ u.kvm.state = s.kvm.state ∧ u.main = .exec task ret rest ∧ Alone u t ∧
      ∀ i, i ∈ is ∨ sig ∈ s.pending i → sig ∈ u.pending i := by
  induction is generalizing s with
  | nil => exact ⟨s, Kept.refl s, rfl, at_, h, by simp⟩
  | cons i is ih =>
    obtain ⟨u, effect, next, more⟩ := alone_cons at_ h
    obtain ⟨v, kept, state, main, last, sent⟩ := ih next more
    refine ⟨v, (kept_of_opening effect (.inr (.inr ⟨i, sig, rfl⟩))).trans kept,
      state.trans effect.state, main, last, fun j from_ => sent j ?_⟩
    rw [effect.pending]
    by_cases same : j = i
    · subst same
      simp
    · simpa [Function.update_of_ne same, same] using from_

/-- MINI_KVM_SHUTDOWN is stored, SIGVMSHUTDOWN sent, and the pause protocol left alone. -/
structure Sent (s t : State n) : Prop extends Kept s t where
  state : t.kvm.state = .shutdown
  signals : ∀ i, .shutdown ∈ t.pending i

theorem alone_shutdown {s t : State n} {task : Task} {ret : MiniKVMError} {rest : List (Op n)}
    (at_ : s.main = .exec task ret (.storeState .shutdown :: (miniKvmSendSig .shutdown ++ rest)))
    (h : Alone s t) : ∃ u, Sent s u ∧ u.main = .exec task ret rest ∧ Alone u t := by
  obtain ⟨u, effect, next, more⟩ := alone_cons at_ h
  obtain ⟨v, kept, state, main, last, sent⟩ := alone_kills next more
  have stored := kept_of_opening effect (.inr (.inl ⟨_, rfl⟩))
  exact ⟨v, ⟨stored.trans kept, state.trans effect.state, fun i => sent i (.inl (by simp))⟩, main,
    last⟩

theorem branch_outcome {s b : State n} (h : Completes s .signalBranch b) : Sent s b := by
  have text : (Task.signalBranch).ops (n := n) =
      .storeState .shutdown :: (miniKvmSendSig .shutdown ++ []) := by
    simp [Task.ops, signalBranch]
  obtain ⟨u, sent, main, more⟩ := alone_shutdown (congrArg (MainPc.exec _ _) text) h
  rw [alone_nil main more]
  exact ⟨⟨sent.paused, sent.pauseLock, sent.pauseCond, sent.vcpus, sent.killed⟩, sent.state,
    sent.signals⟩

theorem handler_outcome {s h : State n} {cmd : MiniKvmStatusCommand} (kind : cmd.type = .shutdown)
    (completes : Completes s (.command cmd) h) :
    (s.kvm.paused = 0 → Sent s h) ∧ (s.kvm.paused ≠ 0 → h.kvm.paused = 0) := by
  have text : (Task.command cmd).ops (n := n) =
      .lock :: .storeState .shutdown :: (miniKvmSendSig .shutdown ++ .ifPaused :: miniKvmResumeVm) := by
    simp [Task.ops, miniKvmStatusHandleCommand, handlers, kind, statusHandleShutdown]
  obtain ⟨u, locks, next, more⟩ := alone_cons (congrArg (MainPc.exec _ _) text) completes
  obtain ⟨v, sent, main, more⟩ := alone_shutdown next more
  obtain ⟨w, tests, next, more⟩ := alone_cons main more
  have kept := (kept_of_opening locks (.inl rfl)).trans sent.toKept
  have flag : v.kvm.paused = s.kvm.paused := kept.paused
  constructor
  · intro low
    rw [Op.next, flag, if_pos low] at next
    rw [alone_nil next more]
    exact ⟨⟨tests.paused.trans kept.paused, tests.pauseLock.trans kept.pauseLock,
      tests.pauseCond.trans kept.pauseCond, tests.vcpus.trans kept.vcpus,
      tests.killed.trans kept.killed⟩,
      tests.state.trans sent.state, fun i => by rw [tests.pending]; exact sent.signals i⟩
  · intro high
    rw [Op.next, flag, if_neg high] at next
    obtain ⟨x, stores, next, more⟩ := alone_cons next more
    obtain ⟨y, signals, next, more⟩ := alone_cons next more
    obtain ⟨z, unlocks, next, more⟩ := alone_cons next more
    rw [alone_nil next more]
    exact unlocks.paused.trans (signals.paused.trans stores.paused)

/-! ## Both return -/

/-- An access at which the main thread never waits. -/
def Prompt (op : Op n) : Prop := op ≠ .lock ∧ op ≠ .lockPause ∧ ∀ i, op ≠ .getRegs i

/-- After `kvm->lock`, SHUTDOWN and the signal branch block nowhere. -/
theorem alone_exists {s : State n} {task : Task} {ret : MiniKVMError} {rest : List (Op n)}
    (alive : s.killed = false) (at_ : s.main = .exec task ret rest) (prompt : ∀ op ∈ rest, Prompt op) :
    ∃ t, Alone s t := by
  induction rest generalizing s ret with
  | nil => exact ⟨s, .done at_⟩
  | cons op rest ih =>
    obtain ⟨here, later⟩ := List.forall_mem_cons.mp prompt
    have enabled : ∃ e u, (e = .main ∨ ∃ i, e = .wake i) ∧ step s e = some u ∧
        u.main = op.next s task ret rest := by
      by_cases sleeper : op = .signalPauseCond ∧ ¬ s.kvm.pauseCond.NobodyAsleep
      · obtain ⟨rfl, someone⟩ := sleeper
        obtain ⟨i, asleep⟩ : ∃ i, s.kvm.pauseCond.waiter i = some .asleep := by
          simpa [CondVar.NobodyAsleep] using someone
        refine ⟨.wake i, { s with
          kvm := { s.kvm with
            pauseCond := ⟨Function.update s.kvm.pauseCond.waiter i (some .woken)⟩ }
          main := .exec task ret rest }, .inr ⟨i, rfl⟩, ?_, rfl⟩
        simp [step_of_alive alive, live, wakeStep, at_, CondVar.wake, asleep]
      · have runs : ∃ u, op.exec s = some u := by
          cases op <;> simp_all [Op.exec, Prompt]
        obtain ⟨u, hu⟩ := runs
        exact ⟨.main, { u with main := op.next s task ret rest }, .inl rfl,
          by simp [step_of_alive alive, live, mainStep, at_, hu], rfl⟩
    obtain ⟨e, u, event, hu, next⟩ := enabled
    have alive' : u.killed = false := by
      cases step_cases hu with
      | op _ effect => exact effect.killed.trans alive
      | kills kill => rcases event with rfl | ⟨i, rfl⟩ <;> cases kill
      | finish at' | leave at' | loop at' => simp [at_] at at'
      | vcpu side => exact side.frame.killed.trans alive
      | _ => rcases event with event | ⟨i, event⟩ <;> cases event
    rcases Op.next_cases s task ret rest op with ⟨goes, -⟩ | ⟨-, -, goes⟩ | ⟨-, -, goes⟩
    · obtain ⟨t, more⟩ := ih alive' (next.trans goes) later
      exact ⟨t, .step at_ event hu more⟩
    · exact ⟨u, .step at_ event hu (.done (next.trans goes))⟩
    · exact ⟨u, .step at_ event hu (.done (next.trans goes))⟩

/-- `kvm->lock` is held only while a command is handled. -/
def Unlocked (s : State n) : Prop :=
  (∀ cmd rest, s.In (.command cmd) rest → .lock ∈ rest) → s.kvm.lock.owner = none

theorem unlocked_step {s t : State n} {e : Event n} (text : InText s) (before : Unlocked s)
    (h : step s e = some t) : Unlocked t := by
  intro outside
  -- where the main thread was in no command past its lock, nobody owned it
  have same (lock : t.kvm.lock = s.kvm.lock)
      (was : ∀ cmd rest, s.In (.command cmd) rest → .lock ∈ rest) : t.kvm.lock.owner = none := by
    rw [lock]
    exact before was
  cases step_cases h with
  | @op _ task ret op rest _ at_ effect next event =>
    by_cases locks : op = .lock
    · subst locks
      obtain ⟨cmd, rfl, -, once⟩ := at_lock (text _ _ ⟨ret, at_⟩)
      exact absurd (outside cmd rest ⟨ret, next⟩) once
    · refine same ?_ fun cmd rest' here => ?_
      · have := effect.lock
        cases op <;> simp_all
      · obtain ⟨ret', here⟩ := here
        rw [at_] at here
        cases here
        rcases Op.next_cases s (.command cmd) ret rest op with
          ⟨goes, -⟩ | ⟨-, -, goes⟩ | ⟨-, -, goes⟩
        · exact List.mem_cons_of_mem _ (outside cmd rest ⟨_, next.trans goes⟩)
        · simpa using outside cmd [] ⟨_, next.trans goes⟩
        · simpa using outside cmd [] ⟨_, next.trans goes⟩
  | @finish task ret at_ =>
    cases task with
    | command cmd => rfl
    | startVm | signalBranch => exact before (by simp [State.In, at_])
  | @queryFails task ret op rest at_ query =>
    refine same rfl fun cmd rest' here => ?_
    obtain ⟨ret', here⟩ := here
    rw [at_] at here
    cases here
    simpa using outside cmd [] ⟨_, rfl⟩
  | @createFails task ret i rest at_ =>
    refine same rfl fun cmd rest' here => ?_
    obtain ⟨ret', here⟩ := here
    rw [at_] at here
    cases here
    simpa using outside cmd _ ⟨_, rfl⟩
  | kills => exact before outside
  | vcpu side =>
    exact same side.frame.lock fun cmd rest ⟨ret, here⟩ =>
      outside cmd rest ⟨ret, side.frame.main ▸ here⟩
  | leave at_ | loop at_ | accept _ at_ | recv _ at_ | recvEnd at_ | reply at_ | caught at_
  | uncaught at_ => exact same rfl (by simp [State.In, at_])

theorem unlocked_init : Unlocked (init n) := fun _ => rfl

/-- Between commands both functions can be called and return. -/
theorem completes_exists {s : State n} {task : Task} (alive : s.killed = false)
    (free : s.kvm.lock.owner = none)
    (isShutdown : task = .signalBranch ∨ ∃ cmd, task = .command cmd ∧ cmd.type = .shutdown) :
    ∃ t, Completes s task t := by
  have prompt (op : Op n)
      (h : op = .storeState .shutdown ∨ (∃ i, op = .pthreadKill i .shutdown) ∨ op = .ifPaused ∨
        op ∈ miniKvmResumeVm) : Prompt op := by
    rcases h with rfl | ⟨i, rfl⟩ | rfl | h
    · simp [Prompt]
    · simp [Prompt]
    · simp [Prompt]
    · simp only [miniKvmResumeVm, List.mem_cons, List.not_mem_nil, or_false] at h
      rcases h with rfl | rfl | rfl <;> simp [Prompt]
  rcases isShutdown with rfl | ⟨cmd, rfl, kind⟩
  · refine alone_exists alive rfl fun op member => prompt op ?_
    simp only [Task.ops, signalBranch, List.mem_cons, mem_miniKvmSendSig] at member
    exact member.imp_right .inl
  · let t : State n := { s with
      kvm := { s.kvm with lock := ⟨some .main⟩ }
      main := .exec (.command cmd) .success (handlers cmd) }
    have locks : step { s with main := .exec (.command cmd) .success (Task.command cmd).ops } .main =
        some t := by
      refine step_eq_some.mpr ⟨alive, ?_⟩
      simp [t, live, mainStep, Task.ops, miniKvmStatusHandleCommand, Op.exec, Op.next, Mutex.lock, free]
    have here : t.main = .exec (.command cmd) .success (handlers cmd) := rfl
    obtain ⟨u, more⟩ := alone_exists (s := t) alive here fun op member => prompt op (by
      simp only [handlers, kind, statusHandleShutdown, List.mem_cons, List.mem_append,
        mem_miniKvmSendSig] at member
      exact member)
    exact ⟨u, .step rfl (.inl rfl) locks more⟩

/-! ## Every schedule -/

variable {held : Fin n → Prop}

/-- The handler takes the signals of a thread that is outside of KVM_RUN, one after another. -/
theorem drains {s : State n} {i : Fin n} (alive : s.killed = false) (installed : s.Installed)
    (outside : s.vcpus i ≠ .inRun) :
    ∃ es t, (∀ e ∈ es, ofVcpus e = true) ∧ (system n).run s es = some t ∧ t.vcpus = s.vcpus ∧
      t.kvm = s.kvm ∧ t.pending i = [] := by
  induction sent : s.pending i generalizing s with
  | nil => exact ⟨[], s, by simp, rfl, rfl, rfl, sent⟩
  | cons sig rest ih =>
    let t : State n :=
      { s with pending := Function.update s.pending i ((s.pending i).erase sig) }
    have takes : step s (.deliver i sig) = some t := by
      rw [step_of_alive alive]
      simp [live, deliverStep, sent, installed, outside, t]
    obtain ⟨es, u, of, reaches, vcpus, kvm, none_⟩ :=
      @ih t alive installed outside (by simp [t, sent])
    exact ⟨.deliver i sig :: es, u, List.forall_mem_cons.mpr ⟨rfl, of⟩,
      (system n).run_cons.mpr ⟨t, takes, reaches⟩, vcpus, kvm, none_⟩

/-- Both functions leave an unpaused VM so: every thread has its way to the end, and no step of a vcpu
takes it away. -/
structure Leaving (held : Fin n → Prop) (s : State n) : Prop where
  alive : s.killed = false
  over_ : Over held s
  down : s.kvm.state = .shutdown
  flag : s.kvm.paused = 0
  unstuck : Unstuck s
  inReach : InReach s
  born : ∀ i, s.vcpus i ≠ .unborn
  signals : ∀ i, s.vcpus i = .inRun → .shutdown ∈ s.pending i
  waiting : ∀ i, s.kvm.pauseCond.waiter i ≠ none ↔ s.vcpus i = .waiting

/-- Where a thread comes to that has left KVM_RUN or pthread_cond_wait for good. -/
def Outward : VcpuPc → Prop
  | .testShutdown | .testFlag | .exited _ _ | .ended => True
  | _ => False

/-- A thread goes on, and the others stay. -/
theorem leaving_move {s t : State n} {i : Fin n} (before : Leaving held s)
    (running : s.vcpus i ≠ .ended) (alive : t.killed = s.killed)
    (state : t.kvm.state = .shutdown) (flag : t.kvm.paused = s.kvm.paused)
    (others : ∀ j, j ≠ i → t.vcpus j = s.vcpus j ∧ t.pending j = s.pending j ∧
      t.kvm.pauseCond.waiter j = s.kvm.pauseCond.waiter j)
    (goes : Outward (t.vcpus i)) (leaves : t.kvm.pauseCond.waiter i = none)
    (lock : t.kvm.pauseLock = s.kvm.pauseLock ∨ s.vcpus i = .waiting) : Leaving held t := by
  have kept (P : VcpuPc → Prop) (here : P (t.vcpus i)) (all : ∀ j, P (s.vcpus j)) :
      ∀ j, P (t.vcpus j) := by
    intro j
    by_cases same : j = i
    · exact same ▸ here
    · exact (others j same).1 ▸ all j
  have apart (pc : VcpuPc) (h : ¬ Outward pc) : t.vcpus i ≠ pc := fun is => h (is ▸ goes)
  have waits {j : Fin n} (h : t.vcpus j = .waiting) : j ≠ i ∧ s.vcpus j = .waiting := by
    by_cases same : j = i
    · exact absurd (same ▸ h) (apart .waiting id)
    · exact ⟨same, (others j same).1 ▸ h⟩
  refine ⟨alive.trans before.alive, fun j is => ?_, state, flag.trans before.flag,
    ⟨?_, fun j => ?_, fun j h => ?_⟩, ⟨fun some_ => ?_, ?_⟩, ?_, fun j inside => ?_, fun j => ?_⟩
  · have other : j ≠ i := fun same => running (same ▸ before.over_ j is)
    exact (others j other).1.trans (before.over_ j is)
  · exact kept (· ≠ .callWait) (apart _ id) before.unstuck.calls
  · by_cases same : j = i
    · simp [same, leaves]
    · rw [(others j same).2.2]
      exact before.unstuck.asleep j
  · obtain ⟨other, here⟩ := waits h
    obtain ⟨free, only⟩ := before.unstuck.alone j here
    refine ⟨?_, fun k h' => only k (waits h').2⟩
    rcases lock with same | there
    · rw [same]
      exact free
    · exact absurd (only i there).symm other
  · exact ⟨i, apart _ id, apart _ id⟩
  · exact kept (fun pc => pc ≠ .testPaused ∧ pc ≠ .enterRun) ⟨apart _ id, apart _ id⟩
      before.inReach.between
  · exact kept (· ≠ .unborn) (apart _ id) before.born
  · by_cases same : j = i
    · exact absurd (same ▸ inside) (apart .inRun id)
    · rw [(others j same).2.1]
      exact before.signals j ((others j same).1 ▸ inside)
  · by_cases same : j = i
    · subst same
      exact iff_of_false (by simp [leaves]) (apart .waiting id)
    · rw [(others j same).1, (others j same).2.2]
      exact before.waiting j

theorem leaving_side {s t : State n} {e : Event n} {i : Fin n} (before : Leaving held s)
    (side : VcpuSide s i e t) : Leaving held t := by
  have frame := side.frame
  have down : t.kvm.state = .shutdown := frame.state.elim (·.trans before.down) id
  have others (j : Fin n) (other : j ≠ i) : t.vcpus j = s.vcpus j ∧ t.pending j = s.pending j ∧
      t.kvm.pauseCond.waiter j = s.kvm.pauseCond.waiter j :=
    ⟨frame.others j other, frame.signals j other, frame.waiters j other⟩
  -- outside of pthread_cond_wait a thread is no waiter
  have awake (was : s.vcpus i ≠ .waiting) : s.kvm.pauseCond.waiter i = none := by
    by_contra inside
    exact was ((before.waiting i).mp inside)
  have goes (running : s.vcpus i ≠ .ended) (pc : Outward (t.vcpus i))
      (leaves : t.kvm.pauseCond.waiter i = none)
      (lock : t.kvm.pauseLock = s.kvm.pauseLock ∨ s.vcpus i = .waiting) : Leaving held t :=
    leaving_move before running frame.killed down frame.paused others pc leaves lock
  obtain ⟨notTesting, notEntering⟩ := before.inReach.between i
  cases side with
  | thread moves =>
    cases moves with
    | setup at_ | ends at_ | noFlag at_ | stops at_ | returns at_ =>
      exact goes (by simp [at_]) (by simp [State.goto_vcpus, Outward]) (awake (by simp [at_]))
        (.inl rfl)
    | goesOn at_ up => exact absurd before.down up
    | seesPaused at_ | passes at_ => exact absurd at_ notTesting
    | seesFlag at_ flag => exact absurd before.flag flag
    | waits at_ => exact absurd at_ (before.unstuck.calls i)
    | enters at_ => exact absurd at_ notEntering
    | wakes at_ woken unowned =>
      exact goes (by simp [at_]) (by simp [State.goto_vcpus, Outward])
        (by simp [CondVar.leave_waiter]) (.inr at_)
  | exit ret reason inside | interrupts sent inside =>
    exact goes (by simp [inside]) (by simp [State.goto_vcpus, Outward]) (awake (by simp [inside]))
      (.inl rfl)
  | consumed sent outside =>
    refine ⟨before.alive, before.over_, before.down, before.flag,
      ⟨before.unstuck.calls, before.unstuck.asleep, before.unstuck.alone⟩,
      ⟨before.inReach.handlers, before.inReach.between⟩, before.born, fun j inside => ?_,
      before.waiting⟩
    have other : j ≠ i := fun same => outside (same ▸ inside)
    simpa [Function.update_of_ne other] using before.signals j inside

theorem leaving_step {s t : State n} {e : Event n} (before : Leaving held s)
    (of : ofVcpus e = true) (h : step s e = some t) : Leaving held t := by
  obtain ⟨i, side⟩ | ⟨-, bare, i, -⟩ := side_of_vcpus of h
  · exact leaving_side before side
  · exact absurd (before.inReach.handlers i.pos) bare

theorem clear_of_leaving {s : State n} (h : Leaving held s) : Clear held s where
  alive := h.alive
  down := h.down
  over_ := h.over_
  ways i := by
    unfold WayOut
    cases at_ : s.vcpus i with
    | setup | testShutdown | exited ret reason | ended => trivial
    | unborn => exact h.born i at_
    | callWait => exact h.unstuck.calls i at_
    | testPaused => exact absurd at_ (h.inReach.between i).1
    | enterRun => exact absurd at_ (h.inReach.between i).2
    | testFlag => exact h.flag
    | inRun => exact List.ne_nil_of_mem (h.signals i at_)
    | waiting =>
      obtain ⟨unowned, only⟩ := h.unstuck.alone i at_
      refine ⟨h.flag, ?_, unowned, only⟩
      -- it is inside, and not asleep
      have inside := (h.waiting i).mpr at_
      have awake := h.unstuck.asleep i
      cases waiter : s.kvm.pauseCond.waiter i with
      | none => exact absurd waiter inside
      | some wait => cases wait <;> simp_all

theorem joins_of_leaving {s : State n} (h : Leaving held s) : Joins held s := by
  intro es t of reaches
  refine canEnd_of_clear (clear_of_leaving ?_)
  exact ((system n).invariant_allowed (Leaving held)
    (fun s e t before of h => leaving_step before of h) h of reaches)

/-! ## Together -/

theorem alive_of_idle {s : State n} (idle : Idle s = true) : s.killed = false := by
  simp only [Idle, Bool.and_eq_true, Bool.not_eq_true'] at idle
  exact idle.1

theorem not_in_of_idle {s : State n} (idle : Idle s = true) (task : Task) (rest : List (Op n)) :
    ¬ s.In task rest := by
  rintro ⟨ret, here⟩
  simp [Idle, here] at idle

theorem born_of_idle {s : State n} (sound : Sound s) (idle : Idle s = true) (i : Fin n) :
    s.vcpus i ≠ .unborn := by
  intro isUnborn
  rcases sound.startup.unborn i isUnborn with ⟨rest, here, -⟩ | gone | ⟨ret, rest, -, here⟩
  · exact not_in_of_idle idle _ _ ⟨_, here⟩
  · simp [Idle, gone] at idle
  · exact not_in_of_idle idle _ _ ⟨_, here⟩

/-- In an unpaused VM the handler does what the signal branch does. -/
theorem leaving_of_sent {s t : State n} (sound : Sound s) (idle : Idle s = true)
    (flag : s.kvm.paused = 0) (unstuck : Unstuck s) (inReach : InReach s) (over_ : Over held s)
    (sent : Sent s t) : Leaving held t where
  alive := sent.killed.trans (alive_of_idle idle)
  over_ i is := by
    rw [sent.vcpus]
    exact over_ i is
  down := sent.state
  flag := sent.paused.trans flag
  unstuck := unstuck.of_same sent.vcpus sent.pauseCond sent.pauseLock
  inReach := inReach.of_same sent.vcpus
  born i := by
    rw [sent.vcpus]
    exact born_of_idle sound idle i
  signals i _ := sent.signals i
  waiting i := by
    rw [sent.pauseCond, sent.vcpus]
    exact sound.startup.waiting i

theorem agree_of_unpaused {s : State n} (sound : Sound s) (unlocked : Unlocked s)
    (idle : Idle s = true) (flag : s.kvm.paused = 0) (unstuck : Unstuck s) (inReach : InReach s)
    (over_ : Over held s) : PathsAgree held s where
  returns cmd kind := by
    have alive := alive_of_idle idle
    have free := unlocked fun cmd rest here => absurd here (not_in_of_idle idle _ _)
    exact ⟨completes_exists alive free (.inl rfl),
      completes_exists alive free (.inr ⟨cmd, rfl, kind⟩)⟩
  same cmd b h kind branch handler := by
    have viaBranch := branch_outcome branch
    have viaHandler := (handler_outcome kind handler).1 flag
    exact ⟨viaBranch.state.trans viaHandler.state.symm, viaBranch.paused.trans viaHandler.paused.symm,
      viaBranch.pauseCond.trans viaHandler.pauseCond.symm,
      viaBranch.pauseLock.trans viaHandler.pauseLock.symm⟩
  joins cmd t kind either := by
    refine joins_of_leaving (leaving_of_sent sound idle flag unstuck inReach over_ ?_)
    rcases either with branch | handler
    · exact branch_outcome branch
    · exact (handler_outcome kind handler).1 flag

theorem Joins.canEndBy {s : State n} (joins : Joins held s) : CanEndBy (OfOthers held) s :=
  joins [] s (by simp) rfl

/-- What can be joined whatever the vcpus do has lost no signal, and cannot be killed by one. -/
theorem inReach_of_joins {s b : State n} (sent : Sent s b) (alive : b.killed = false)
    (joins : Joins held b) : InReach b := by
  have handlers (some_ : 0 < n) : b.Installed := by
    -- SIGVMSHUTDOWN comes before the handlers
    by_contra bare
    let i : Fin n := ⟨0, some_⟩
    have kills : step b (.deliver i .shutdown) = some { b with killed := true } := by
      rw [step_of_alive alive]
      simp [live, deliverStep, sent.signals i, bare]
    refine not_canEnd_of_killed (i := i) rfl ?_ (canEnd_of_others
      (joins [.deliver i .shutdown] _ (by simp [ofVcpus]) ((system n).run_cons.mpr ⟨_, kills, rfl⟩)))
    intro ended
    exact bare ⟨i, by simp_all, by simp_all⟩
  have between (i : Fin n) : b.vcpus i ≠ .testPaused ∧ b.vcpus i ≠ .enterRun := by
    by_contra here
    -- the signals are taken up there, and KVM_RUN follows
    have heads : heading (b.vcpus i) = true ∧ b.vcpus i ≠ .inRun := by
      cases at_ : b.vcpus i <;> simp_all [heading]
    obtain ⟨es, t, of, reaches, vcpus, kvm, none_⟩ := drains alive (handlers i.pos) heads.2
    refine not_canEnd_of_trapped (.inr (.inl ⟨?_, none_, ?_⟩))
      (canEnd_of_others (joins es t of reaches))
    · rw [vcpus]
      exact heads.1
    · rw [kvm]
      exact sent.state
  exact ⟨handlers, between⟩

/-- Where every thread has a way out, none is stuck. -/
theorem unstuck_of_ways {s : State n}
    (waiting : ∀ i, s.kvm.pauseCond.waiter i ≠ none ↔ s.vcpus i = .waiting)
    (ways : ∀ i, WayOut s i) : Unstuck s where
  calls i at_ := by
    have way := ways i
    simp [WayOut, at_] at way
  asleep i asleep := by
    have at_ := (waiting i).mp (by simp [asleep])
    have way := ways i
    simp [WayOut, at_, asleep] at way
  alone i at_ := by
    have way := ways i
    unfold WayOut at way
    rw [at_] at way
    exact way.2.2

theorem unpaused_of_agree {s : State n} (sound : Sound s) (alive : s.killed = false)
    (agree : PathsAgree held s) :
    s.kvm.paused = 0 ∧ Unstuck s ∧ InReach s ∧ Over held s := by
  obtain ⟨⟨b, branch⟩, ⟨h, handler⟩⟩ := agree.returns { type := .shutdown } rfl
  have sent := branch_outcome branch
  have flag : s.kvm.paused = 0 := by
    by_contra high
    have cleared := (handler_outcome rfl handler).2 high
    have same := (agree.same _ b h rfl branch handler).2.1
    exact high (sent.paused.symm.trans (same.trans cleared))
  have joins := agree.joins { type := .shutdown } b rfl (.inl branch)
  have waiting (i : Fin n) : b.kvm.pauseCond.waiter i ≠ none ↔ b.vcpus i = .waiting := by
    rw [sent.pauseCond, sent.vcpus]
    exact sound.startup.waiting i
  have ways := wayOut_of_canEnd sent.state waiting (canEnd_of_others joins.canEndBy)
  have unstuck := unstuck_of_ways waiting ways
  have inReach := inReach_of_joins sent (sent.killed.trans alive) joins
  refine ⟨flag, unstuck.of_same sent.vcpus.symm sent.pauseCond.symm sent.pauseLock.symm,
    inReach.of_same sent.vcpus.symm, ?_⟩
  rw [Over, ← sent.vcpus]
  exact over_of_canEnd joins.canEndBy

/-- The two ways to shut down agree, and let every vcpu thread be joined whatever the vcpus do, from
exactly the states that are not paused, have no thread stuck in pthread_cond_wait, none that
SIGVMSHUTDOWN would miss and none that is held up for good before its end. -/
theorem paths_agree_iff (r : Run n) (held : Fin n → Prop) (idle : Idle r.final = true) :
    PathsAgree held r.final ↔
      r.final.kvm.paused = 0 ∧ Unstuck r.final ∧ InReach r.final ∧ Over held r.final := by
  have preserved (s : State n) (e : Event n) (t : State n) (before : Sound s ∧ Unlocked s)
      (h : step s e = some t) : Sound t ∧ Unlocked t :=
    ⟨sound_step before.1 h, unlocked_step before.1.text before.2 h⟩
  obtain ⟨sound, unlocked⟩ :=
    (system n).invariant_reachable preserved ⟨sound_init, unlocked_init⟩ r.reaches
  exact ⟨unpaused_of_agree sound (alive_of_idle idle), fun ⟨flag, unstuck, inReach, over_⟩ =>
    agree_of_unpaused sound unlocked idle flag unstuck inReach over_⟩

/-- The VM runs, with its vcpu inside KVM_RUN, and the server waits for a connection. -/
def running : List (Event 1) :=
  [.main, .main, .main, .vcpu sole, .vcpu sole, .vcpu sole, .vcpu sole, .main]

theorem running_paths_agree :
    PathsAgree (fun _ => False) (((system 1).run (init 1) running).get (by decide)) :=
  (paths_agree_iff (.ofEvents running (by decide)) (fun _ => False) (by decide)).mpr
    ⟨by decide, ⟨by decide, by decide, by decide⟩, ⟨by decide, by decide⟩, fun _ is => is.elim⟩

/-- A client has paused the VM and closed its connection, and the vcpu waits. -/
def paused : List (Event 1) :=
  [.main, .vcpu sole, .main, .main, .main, .accept true, .recv (some { type := .pause }), .main,
    .main, .main, .main, .main, .main, .reply, .vcpu sole, .vcpu sole, .vcpu sole, .vcpu sole,
    .recv none]

theorem paused_paths_differ :
    ¬ ∀ (n : Nat) (r : Run n), Idle r.final = true → PathsAgree (fun _ => False) r.final := by
  intro all
  have agree := all 1 (.ofEvents paused (by decide)) (by decide)
  have reaches : (system 1).run (init 1) paused = some _ := (Option.some_get (by decide)).symm
  exact absurd (unpaused_of_agree (sound_run reaches) (by decide) agree).1 (by decide)

end MiniKvm.Guarantees.ShutdownPaths
