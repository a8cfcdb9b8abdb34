import MiniKvm.Guarantees.ClientSerial
import MiniKvm.Guarantees.ShutdownPaths

/-!
# Is a client served to its end?

Between two commands the server waits for one client. Within a command it waits for `pause_lock`,
which a vcpu thread brings back from pthread_cond_wait and keeps, or for the registers of a vcpu that
is inside KVM_RUN. Where dumps come to their end, a connection of a shipped client is served to its
end by the main thread and the client alone, or the main thread comes to wait for one of the two; for
the lock it waits for good, unless a vcpu thread is just about to call pthread_cond_wait.
-/
namespace MiniKvm.Guarantees.ServedClients
open Source Source.Server Source.Clients Lib.Sync ClientSerial ShutdownPaths

variable {n : Nat}

/-- The main thread is at the pthread_mutex_lock of mini_kvm_pause_vm, and `pause_lock` is owned. -/
def Blocked (s : State n) : Prop :=
  s.killed = false ∧ (∃ task ret rest, s.main = .exec task ret (.lockPause :: rest)) ∧
    s.kvm.pauseLock.owner ≠ none

/-- The main thread asks for the registers of a vcpu that is inside KVM_RUN. -/
def AwaitsRegs (s : State n) : Prop :=
  ∃ task ret i rest, s.main = .exec task ret (.getRegs i :: rest) ∧ s.vcpus i = .inRun

/-- The main thread stays where it is, whatever the clients and the vcpu threads do. -/
def Stays (w : World n) : Prop :=
  ∀ es w', (network n).run w es = some w' → w'.server.main = w.server.main

/-- The events of the main thread and of client `j`, when no system call fails and a dump comes to its
end. -/
def Serves (j : Nat) : NetEvent n → Prop
  | .act k => k = j
  | .serve | .reply | .inner .main | .inner (.wake _) => True
  | _ => False

/-! ## The way to the end -/

/-- The next access can be made unless a lock is owned, or a vcpu that is asked inside KVM_RUN. -/
theorem op_enabled {s : State n} {task : Task} {ret : MiniKVMError} {op : Op n} {rest : List (Op n)}
    (alive : s.killed = false) (at_ : s.main = .exec task ret (op :: rest))
    (free : op = .lock → s.kvm.lock.owner = none)
    (unpaused : op = .lockPause → s.kvm.pauseLock.owner = none)
    (outside : ∀ i, op = .getRegs i → s.vcpus i ≠ .inRun) :
    ∃ e t, (∀ j, Serves j (.inner e)) ∧ onSocket e = false ∧ step s e = some t ∧
      t.main = op.next s task ret rest ∧ t.killed = false := by
  by_cases sleeper : op = .signalPauseCond ∧ ¬ s.kvm.pauseCond.NobodyAsleep
  · obtain ⟨rfl, someone⟩ := sleeper
    obtain ⟨i, asleep⟩ : ∃ i, s.kvm.pauseCond.waiter i = some .asleep := by
      simpa [CondVar.NobodyAsleep] using someone
    refine ⟨.wake i, { s with
      kvm := { s.kvm with
        pauseCond := ⟨Function.update s.kvm.pauseCond.waiter i (some .woken)⟩ }
      main := .exec task ret rest }, fun _ => trivial, rfl, ?_, rfl, alive⟩
    simp [step_of_alive alive, live, wakeStep, at_, CondVar.wake, asleep]
  · have runs : ∃ t, op.exec s = some t := by
      cases op <;> simp_all [Op.exec, Mutex.lock]
    obtain ⟨t, ht⟩ := runs
    exact ⟨.main, { t with main := op.next s task ret rest }, fun _ => trivial, rfl,
      by simp [step_of_alive alive, live, mainStep, at_, ht], rfl,
      (Op.effect s.main ht).killed.trans alive⟩

theorem length_handleCommand (cmd : MiniKvmStatusCommand) :
    (miniKvmStatusHandleCommand cmd : List (Op n)).length ≤ n + 6 := by
  have selected := List.length_filter_le (fun i : Fin n => vcpuSelected cmd.vcpus i.val)
    (List.finRange n)
  rw [List.length_finRange] at selected
  cases kind : cmd.type <;>
    simp [miniKvmStatusHandleCommand, handlers, kind, statusHandleNone, statusHandlePause,
      statusHandleResume, statusHandleShutdown, statusHandleCmdState, statusHandleRegs,
      statusHandleDumpMem, miniKvmSendSig, miniKvmPauseVm, miniKvmResumeVm]
  omega

/-- What the main thread has still to do for the command. -/
def phase (s : State n) : Nat :=
  match s.main with
  | .exec _ _ ops => ops.length + 2
  | .replying => 1
  | _ => 0

/-- What is left of the conversation with client `j`. -/
def remaining (j : Nat) (w : World n) : Nat :=
  (w.clients j).prog.length * (n + 12) + (w.clients j).toServer.length * (n + 11) + phase w.server +
    if w.current = none then 0 else 1

/-- Client `j` is served, or has been. -/
structure Attended (j : Nat) (w : World n) : Prop where
  alive : w.server.killed = false
  serial : Serial w
  unlocked : Unlocked w.server
  current : w.current = none ∨ w.current = some j

theorem attended_step {j : Nat} {w w' : World n} {e : NetEvent n} (attended : Attended j w)
    (moves : netStep w e = some w') (alive : w'.server.killed = false)
    (current : w'.current = none ∨ w'.current = some j) : Attended j w' := by
  refine ⟨alive, serial_step attended.serial moves, ?_, current⟩
  rcases server_step (net_cases moves) with same | ⟨e', h⟩
  · exact same ▸ attended.unlocked
  · exact unlocked_step attended.serial.sound.text attended.unlocked h

/-- What the client does takes something off its program. -/
theorem act_remaining {c c' : Client} (h : c.act = some c') :
    c'.prog.length * (n + 12) + c'.toServer.length * (n + 11) <
      c.prog.length * (n + 12) + c.toServer.length * (n + 11) := by
  unfold Client.act at h
  split at h
  · cases h
  · next cmd rest prog =>
    cases h
    simp only [prog, List.length_append, List.length_cons, List.length_nil]
    grind
  · next rest prog =>
    split at h
    · cases h
    · cases h
      simp only [prog, List.length_cons]
      grind
  · next states rest prog =>
    cases h
    simp only [prog, List.length_cons]
    split <;> grind

theorem serve_progress {j : Nat} {w : World n} (attended : Attended j w) (current : w.current = some j)
    (going : ¬ Blocked w.server) (answered : ¬ AwaitsRegs w.server) :
    ∃ e w', Serves j e ∧ netStep w e = some w' ∧ Attended j w' ∧ remaining j w' < remaining j w := by
  have alive := attended.alive
  have accepted := attended.serial.current j current
  have talk := attended.serial.talk
  -- the client makes its next move
  have acts {c : Client} (h : (w.clients j).act = some c) :
      ∃ e w', Serves j e ∧ netStep w e = some w' ∧ Attended j w' ∧ remaining j w' < remaining j w := by
    have moves : netStep w (.act j) = some (w.setClient j c) := by simp [netStep, accepted, h]
    refine ⟨.act j, _, rfl, moves, attended_step attended moves alive (.inr current), ?_⟩
    have less := act_remaining (n := n) h
    simp only [remaining, World.setClient_clients, if_true]
    exact Nat.add_lt_add_right (Nat.add_lt_add_right less _) _
  have inner {e : Event n} {s : State n} (serves : Serves j (.inner e)) (own : onSocket e = false)
      (h : step w.server e = some s) (lives : s.killed = false) (less : phase s < phase w.server) :
      ∃ e w', Serves j e ∧ netStep w e = some w' ∧ Attended j w' ∧ remaining j w' < remaining j w := by
    have moves : netStep w (.inner e) = some { w with server := s } := by simp [netStep, own, h]
    refine ⟨.inner e, _, serves, moves, attended_step attended moves lives (.inr current), ?_⟩
    simp only [remaining]
    omega
  unfold Talk at talk
  cases at_ : w.server.main with
  | receiving =>
    rw [at_] at talk
    obtain ⟨k, served, speaks⟩ := talk
    cases current.symm.trans served
    cases speaks with
    | idle toServer toClient ready =>
      cases prog : (w.clients j).prog with
      | nil =>
        have moves : netStep w .serve =
            some { w with server := { w.server with main := .sigTest }, current := none } := by
          simp [netStep, current, toServer, prog, step_of_alive alive, live, at_]
        refine ⟨.serve, _, trivial, moves, attended_step attended moves alive (.inl rfl), ?_⟩
        simp [remaining, prog, toServer, phase, current]
      | cons action rest =>
        cases action with
        | recv => simp [prog, Ready] at ready
        | send cmd =>
          have sends : (w.clients j).act = some { w.clients j with
              toServer := (w.clients j).toServer ++ [cmd], prog := rest } := by
            simp [Client.act, prog]
          exact acts sends
        | closeIf states =>
          have tests : (w.clients j).act = some { w.clients j with
              prog := if (w.clients j).res.state ∈ states then [] else rest } := by
            simp [Client.act, prog]
          exact acts tests
    | @asked cmd rest toServer toClient prog sendable follows =>
      have moves : netStep w .serve = some
          { w.setClient j { w.clients j with toServer := [] } with
            server := { w.server with
              main := .exec (.command cmd) .success (miniKvmStatusHandleCommand cmd) } } := by
        simp [netStep, current, toServer, step_of_alive alive, live, at_]
      refine ⟨.serve, _, trivial, moves, attended_step attended moves alive (.inr current), ?_⟩
      have short := length_handleCommand (n := n) cmd
      simp only [remaining, World.setClient, Function.update_self, toServer, phase, at_, current,
        List.length_nil, List.length_cons]
      simp
      omega
    | @answered r rest toServer toClient prog ready =>
      have takes : (w.clients j).act =
          some { w.clients j with res := r, toClient := [], prog := rest } := by
        simp [Client.act, prog, toClient]
      exact acts takes
  | replying =>
    rw [at_] at talk
    obtain ⟨k, actions, served, asks, -⟩ := talk
    cases current.symm.trans served
    have listens : (w.clients j).prog ≠ [] := by simp [asks.prog]
    have moves : netStep w .reply = some
        { w.setClient j { w.clients j with
            toClient := (w.clients j).toClient ++ [w.server.res] } with
          server := { w.server with main := .receiving } } := by
      simp [netStep, current, listens, step_of_alive alive, live, at_]
    refine ⟨.reply, _, trivial, moves, attended_step attended moves alive (.inr current), ?_⟩
    simp [remaining, World.setClient, phase, at_, current]
  | exec task ret ops =>
    rw [at_] at talk
    cases task with
    | startVm | signalBranch => simp [current] at talk
    | command cmd =>
      cases ops with
      | nil =>
        refine inner (e := .main) (s := finish w.server ret (.command cmd)) trivial rfl
          (by simp [step_of_alive alive, live, mainStep, at_]) alive ?_
        simp [phase, finish, at_]
      | cons op rest =>
        obtain ⟨e, t, serves, own, h, next, lives⟩ := op_enabled alive at_
          (fun locks => attended.unlocked fun cmd' rest' here => by
            obtain ⟨ret', here⟩ := here
            rw [at_] at here
            cases here
            simp [locks])
          (fun locks => by
            by_contra owned
            exact going ⟨alive, ⟨_, _, rest, locks ▸ at_⟩, owned⟩)
          (fun i isQuery inside => answered ⟨_, _, i, rest, isQuery ▸ at_, inside⟩)
        refine inner (serves j) own h lives ?_
        rcases Op.next_cases w.server (.command cmd) ret rest op with
          ⟨goes, -⟩ | ⟨-, -, goes⟩ | ⟨-, -, goes⟩ <;> simp [phase, next, goes, at_]
  | loopTest | accepting | sigTest | left =>
    rw [at_] at talk
    simp [current] at talk

/-- Every run of the shipped clients can be continued, by the main thread and the client it serves
alone, to the end of that connection, or to where the main thread waits for `pause_lock` or for a vcpu
inside KVM_RUN. -/
theorem served_or_blocked (programs : Nat → Program)
    (r : (network n).Run (World.init n programs)) (alive : r.final.server.killed = false) (j : Nat)
    (current : r.final.current = some j) :
    ∃ es w, (∀ e ∈ es, Serves j e) ∧ (network n).run r.final es = some w ∧
      w.server.killed = false ∧ (w.current = none ∨ Blocked w.server ∨ AwaitsRegs w.server) := by
  have start : Serial r.final ∧ Unlocked r.final.server :=
    (network n).invariant_reachable
      (fun w e w' (before : Serial w ∧ Unlocked w.server) (moves : netStep w e = some w') => by
        have ⟨serial, unlocked⟩ := before
        refine ⟨serial_step serial moves, ?_⟩
        rcases server_step (net_cases moves) with same | ⟨e', h⟩
        · exact same ▸ unlocked
        · exact unlocked_step serial.sound.text unlocked h)
      ⟨serial_init programs, unlocked_init⟩ r.reaches
  have ends : ∃ es w, (∀ e ∈ es, Serves j e) ∧ (network n).run r.final es = some w ∧
      Attended j w ∧ (w.current = none ∨ Blocked w.server ∨ AwaitsRegs w.server) :=
    (network n).exists_run_of_decreases (remaining j) (fun w attended more => by
      simp only [not_or] at more
      obtain ⟨serving, going, answered⟩ := more
      exact serve_progress attended (attended.current.resolve_left serving) going answered)
      ⟨alive, start.1, start.2, .inr current⟩
  obtain ⟨es, w, serves, reaches, attended, final⟩ := ends
  exact ⟨es, w, serves, reaches, attended.alive, final⟩

/-- Client 0 has been accepted. -/
def accepted : List (NetEvent 1) :=
  [.inner .main, .inner .main, .inner .main, .inner .main, .connect 0, .accept 0]

theorem accepted_served_or_blocked :
    ∃ es w, (∀ e ∈ es, Serves 0 e) ∧
      (network 1).run (((network 1).run (World.init 1 fun _ => .pause) accepted).get (by decide)) es =
        some w ∧ w.server.killed = false ∧
          (w.current = none ∨ Blocked w.server ∨ AwaitsRegs w.server) :=
  served_or_blocked (fun _ => .pause) (.ofEvents accepted (by decide)) (by decide) 0 (by decide)

/-! ## Waiting for good -/

/-- Up to its store PAUSE has found `paused` 0. -/
def Low (s : State n) : Prop :=
  ∀ cmd rest, cmd.type = .pause → s.In (.command cmd) rest → .storePaused 1 ∈ rest → s.kvm.paused = 0

theorem low_inner {s t : State n} {e : Event n} (text : InText s) (before : Low s)
    (own : onSocket e = false) (h : step s e = some t) : Low t := by
  intro cmd rest kind here later
  cases step_in h here with
  | stays same side =>
    rw [side.frame.paused]
    exact before cmd rest kind same later
  | @runs op rest was effect flag paused =>
    have earlier := before cmd _ kind was (List.mem_cons_of_mem _ later)
    rcases effect.paused_cases with ⟨v, rfl, -⟩ | same
    · obtain ⟨_, ⟨⟩, ⟨-, -, rfl⟩ | ⟨releases, -⟩⟩ := at_storePaused (text _ _ was)
      · simp at later
      · simp [kind, CommandType.Releases] at releases
    · exact same.trans earlier
  | skips was flag effect => simp at later
  | refuses was query effect => simp at later
  | gives was only => simp at later
  | begins was isCommand only =>
    -- a command comes from the socket only
    cases step_cases h with
    | recv cmd' at_ => cases own
    | recvEnd at_ =>
      obtain ⟨ret, here⟩ := here
      cases here
    | kills => simp [State.In, was] at here
    | vcpu side => simp [State.In, side.frame.main, was] at here
    | op at_ | finish at_ | leave at_ | loop at_ | createFails at_ | queryFails at_ | accept _ at_
    | reply at_ | caught at_ | uncaught at_ => simp [was] at at_
  | catches was isBranch only => cases isBranch
  | halts same only =>
    rw [only]
    exact before cmd rest kind same later

theorem low_step {w w' : World n} {e : NetEvent n} (serial : Serial w) (before : Low w.server)
    (moves : netStep w e = some w') : Low w'.server := by
  cases net_cases moves with
  | connect | connectFails | act | endOfFile => exact before
  | serve current sent at_ =>
    have sendable := sendable_serve serial current sent at_
    rintro cmd rest kind ⟨ret, here⟩ -
    cases here
    exact sendable.1 kind
  | inner own h => exact low_inner serial.sound.text before own h
  | brokenPipe => exact before
  | accept | acceptNone | hangUp | reply =>
    rintro cmd rest - ⟨ret, here⟩
    cases here

theorem low_init (programs : Nat → Program) : Low (World.init n programs).server := by
  rintro cmd rest - ⟨ret, here⟩
  cases here

/-- `pause_lock` is owned, and nobody is on its way to giving it back. -/
structure LockKept (pc : MainPc n) (w : World n) : Prop where
  main : w.server.main = pc
  owned : w.server.kvm.pauseLock.owner ≠ none
  flag : w.server.kvm.paused = 0
  calls : ∀ i, w.server.vcpus i ≠ .callWait

theorem kept_step {task : Task} {ret : MiniKVMError} {rest : List (Op n)} {w w' : World n}
    {e : NetEvent n} (kept : LockKept (.exec task ret (.lockPause :: rest)) w)
    (moves : netStep w e = some w') : LockKept (.exec task ret (.lockPause :: rest)) w' := by
  have main := kept.main
  cases net_cases moves with
  | connect | connectFails | act | endOfFile =>
    exact ⟨kept.main, kept.owned, kept.flag, kept.calls⟩
  | accept _ at_ | acceptNone at_ | serve _ _ at_ | hangUp _ _ _ at_ | reply _ at_
  | brokenPipe _ at_ => simp [main] at at_
  | @inner e s own h =>
    cases step_cases h with
    | @op _ task' ret' op rest' _ at_ effect =>
      -- the lock would have to be free
      rw [main] at at_
      cases at_
      exact absurd (effect.free rfl) kept.owned
    | finish at_ | leave at_ | loop at_ | createFails at_ | accept _ at_ | recv _ at_ | recvEnd at_
    | reply at_ | caught at_ | uncaught at_ => simp [main] at at_
    | queryFails at_ query =>
      rw [main] at at_
      cases at_
      simp [Op.guarded] at query
    | kills => exact ⟨main, kept.owned, kept.flag, kept.calls⟩
    | @vcpu _ i _ side =>
      have frame := side.frame
      have others (calls : s.vcpus i ≠ .callWait) (j : Fin n) : s.vcpus j ≠ .callWait := by
        by_cases same : j = i
        · exact same ▸ calls
        · exact frame.others j same ▸ kept.calls j
      refine ⟨frame.main.trans main, ?_, frame.paused.trans kept.flag, others ?_⟩
      · cases side with
        | thread moves =>
          cases moves with
          | waits at_ => exact absurd at_ (kept.calls i)
          | wakes at_ woken unowned => exact absurd unowned kept.owned
          | _ => exact kept.owned
        | _ => exact kept.owned
      · cases side with
        | thread moves =>
          cases moves with
          | waits at_ => exact absurd at_ (kept.calls i)
          | seesFlag at_ flag => exact absurd kept.flag flag
          | _ => simp [State.goto_vcpus]
        | consumed sent outside => exact kept.calls i
        | _ => simp [State.goto_vcpus]

/-- A main thread that waits for `pause_lock` waits for good exactly when no vcpu thread is about to
call pthread_cond_wait. -/
theorem blocked_for_good_iff (programs : Nat → Program)
    (r : (network n).Run (World.init n programs)) (blocked : Blocked r.final.server) :
    Stays r.final ↔ ∀ i, r.final.server.vcpus i ≠ .callWait := by
  obtain ⟨alive, ⟨task, ret, rest, at_⟩, owned⟩ := blocked
  obtain ⟨serial, low⟩ : Serial r.final ∧ Low r.final.server :=
    (network n).invariant_reachable
      (fun w e w' (before : Serial w ∧ Low w.server) (moves : netStep w e = some w') =>
        ⟨serial_step before.1 moves, low_step before.1 before.2 moves⟩)
      ⟨serial_init programs, low_init programs⟩ r.reaches
  constructor
  · intro forever i calls
    -- pthread_cond_wait gives up a lock that its caller does not own
    let s : State n := { r.final.server.goto i .waiting with
      kvm := { r.final.server.kvm with
        pauseLock := .unowned
        pauseCond := r.final.server.kvm.pauseCond.wait i } }
    let t : State n := { s with
      kvm := { s.kvm with pauseLock := ⟨some .main⟩ }
      main := .exec task ret rest }
    have reaches : (network n).run r.final [.inner (.vcpu i), .inner .main] =
        some { r.final with server := t } := by
      simp [network, Lib.Lts.System.run, netStep, onSocket, step, alive, live, kvmVcpuThreadRun, calls,
        mainStep, at_, Op.exec, Op.next, Mutex.lock, Mutex.unlock, s, t]
    have same := forever _ _ reaches
    simp [t, at_] at same
  · intro calls es w reaches
    obtain ⟨cmd, rfl, kind, rfl⟩ := at_lockPause (serial.sound.text _ _ ⟨ret, at_⟩)
    have flag := low cmd _ kind ⟨ret, at_⟩ (by simp)
    have kept := (network n).invariant_reachable
      (fun w e w' before (moves : netStep w e = some w') => kept_step before moves)
      ⟨at_, owned, flag, calls⟩ reaches
    exact kept.main.trans at_.symm

/-- Client `j` has asked for the state and sent its command. -/
def asks (j : Nat) : List (NetEvent 1) :=
  [.connect j, .accept j, .act j, .serve, .inner .main, .inner .main, .inner .main, .reply, .act j,
    .act j, .act j, .serve]

/-- It is answered, and closes its socket. -/
def leaves (j : Nat) : List (NetEvent 1) :=
  [.inner .main, .reply, .act j, .serve, .inner (.sigTest false), .inner .main]

def mainGoes (k : Nat) : List (NetEvent 1) := List.replicate k (.inner .main)

def vcpuGoes (k : Nat) : List (NetEvent 1) := List.replicate k (.inner (.vcpu sole))

/-- A client pauses the VM and the vcpu thread waits; a client resumes it and the thread returns from
pthread_cond_wait; then a client pauses it again. -/
def pausedAgain : List (NetEvent 1) :=
  mainGoes 4 ++ vcpuGoes 1 ++ asks 0 ++ mainGoes 5 ++ leaves 0 ++ vcpuGoes 4 ++
    asks 1 ++ mainGoes 4 ++ [.inner (.wake sole), .inner .main] ++ leaves 1 ++ vcpuGoes 2 ++
      asks 2 ++ mainGoes 3

def pausers (j : Nat) : Program := if j = 1 then .resume else .pause

theorem pausedAgain_blocked_for_good :
    Stays (((network 1).run (World.init 1 pausers) pausedAgain).get (by decide)) :=
  (blocked_for_good_iff pausers (.ofEvents pausedAgain (by decide))
    ⟨by decide, ⟨.command { type := .pause }, .success, [.storePaused 1], by decide⟩,
      by decide⟩).mpr (by decide)

end MiniKvm.Guarantees.ServedClients
