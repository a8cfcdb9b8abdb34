import MiniKvm.Source.Clients
import MiniKvm.Source.ServerInvariants

/-!
# Do the clients serialise?

The PAUSE and RESUME handlers do not look at the state they change. The clients do, one message
earlier, and the server serves one connection at a time; so the reply to SHOW_STATE still tells
whether `paused` is set when the next command of the same client is handled.
-/
namespace MiniKvm.Guarantees.ClientSerial
open Source Source.Server Source.Clients Lib.Lts

variable {n : Nat}

/-! ## What a client may send -/

/-- What a state tells about `paused`. -/
def Tells (flag : UInt64) (state : VMState) : Prop :=
  (state = .running → flag = 0) ∧ (state = .paused → flag = 1)

/-- PAUSE is for an unpaused VM, RESUME for a paused one. -/
def Sendable (flag : UInt64) (type : CommandType) : Prop :=
  (type = .pause → flag = 0) ∧ (type = .resume → flag = 1)

/-- `paused` when the command has been handled. -/
def after (flag : UInt64) : CommandType → UInt64
  | .pause => 1
  | .resume | .shutdown => 0
  | _ => flag

/-- A client with this `res` and this much to do sends nothing but what is sendable, whatever the
replies, as long as nobody else is served. -/
def Ready : UInt64 → Reply → List Action → Prop
  | _, _, [] => True
  | flag, res, .closeIf states :: rest => res.state ∉ states → Ready flag res rest
  | flag, _, .send cmd :: .recv :: rest =>
    Sendable flag cmd.type ∧ (cmd.type = .shutdown → rest = []) ∧
      ∀ r, (cmd.type = .showState → Tells flag r.state) → Ready (after flag cmd.type) r rest
  | _, _, _ => False

/-- What is left to do once a command of this type has been answered is ready for the answer. -/
def Follows (flag : UInt64) (type : CommandType) (rest : List Action) : Prop :=
  (type = .shutdown → rest = []) ∧
    ∀ r, (type = .showState → Tells flag r.state) → Ready (after flag type) r rest

/-- The handlers of the changing commands set `paused` whatever it was. -/
theorem follows_of_changes {flag flag' : UInt64} {type : CommandType} {rest : List Action}
    (changes : type.Changes) (follows : Follows flag type rest) : Follows flag' type rest := by
  refine ⟨follows.1, fun r tells => ?_⟩
  have ready := follows.2 r
  rcases changes with rfl | rfl | rfl <;> simpa [after] using ready

theorem ready_send {flag : UInt64} {res : Reply} {cmd : MiniKvmStatusCommand} {rest : List Action} :
    Ready flag res (.send cmd :: .recv :: rest) ↔
      Sendable flag cmd.type ∧ Follows flag cmd.type rest := by
  simp only [Ready, Follows]

/-- A query leaves `paused` as it is. -/
theorem ready_query {flag : UInt64} {res : Reply} {cmd : MiniKvmStatusCommand} {rest : List Action}
    (query : ¬ cmd.type.Changes)
    (later : ∀ r, (cmd.type = .showState → Tells flag r.state) → Ready flag r rest) :
    Ready flag res (.send cmd :: .recv :: rest) := by
  simp only [CommandType.Changes, CommandType.Releases, not_or] at query
  obtain ⟨pause, resume, shutdown⟩ := query
  have same : after flag cmd.type = flag := by
    cases type : cmd.type <;> simp_all [after]
  exact ready_send.mpr ⟨⟨fun h => absurd h pause, fun h => absurd h resume⟩,
    fun h => absurd h shutdown, by simpa only [same] using later⟩

theorem statusBuildCommand_query (args : MiniKvmStatusArgs) (type : CommandType) :
    ¬ (statusBuildCommand args type).type.Changes := by
  cases type <;> simp [statusBuildCommand, CommandType.Changes, CommandType.Releases]

theorem ready_status (flag : UInt64) (res : Reply) (args : MiniKvmStatusArgs) :
    Ready flag res (miniKvmStatus args) := by
  unfold miniKvmStatus
  induction args.cmds generalizing res with
  | nil => simp [Ready]
  | cons type types ih =>
    exact ready_query (statusBuildCommand_query args type) fun r _ => ih r

/-- Every shipped client is ready for any state of the VM. -/
theorem ready_program (flag : UInt64) (p : Program) : Ready flag {} p.actions := by
  cases p with
  | pause =>
    refine ready_query (by simp [CommandType.Changes, CommandType.Releases]) fun r tells open_ => ?_
    have running : r.state = .running := by
      cases state : r.state <;> simp_all
    refine ready_send.mpr ⟨⟨fun _ => (tells rfl).1 running, by simp⟩, by simp, fun r _ => ?_⟩
    simp [Ready]
  | resume =>
    refine ready_query (by simp [CommandType.Changes, CommandType.Releases]) fun r tells open_ => ?_
    have paused : r.state = .paused := by
      cases state : r.state <;> simp_all
    refine ready_send.mpr ⟨⟨by simp, fun _ => (tells rfl).2 paused⟩, by simp, fun r _ => ?_⟩
    simp [Ready]
  | shutdown =>
    exact ready_send.mpr ⟨⟨by simp, by simp⟩, fun _ => rfl, fun r _ => by simp [Ready]⟩
  | status args => exact ready_status flag {} args

/-! ## Conversations -/

/-- A client and its socket, as the server finds them when it waits for a command. -/
inductive Speaks (flag : UInt64) (c : Client) : Prop where
  | idle (toServer : c.toServer = []) (toClient : c.toClient = []) (ready : Ready flag c.res c.prog)
  | asked {cmd : MiniKvmStatusCommand} {rest : List Action} (toServer : c.toServer = [cmd])
    (toClient : c.toClient = []) (prog : c.prog = .recv :: rest)
    (sendable : Sendable flag cmd.type) (follows : Follows flag cmd.type rest)
  | answered {r : Reply} {rest : List Action} (toServer : c.toServer = [])
    (toClient : c.toClient = [r]) (prog : c.prog = .recv :: rest) (ready : Ready flag r rest)

/-- A client that has not been served: what it has sent, if anything, depends on no reply. -/
structure Fresh (c : Client) : Prop where
  toClient : c.toClient = []
  speaks : ∀ flag, Speaks flag c

/-- A client whose command is being handled, or has been handled. -/
structure Asks (c : Client) (rest : List Action) : Prop where
  toServer : c.toServer = []
  toClient : c.toClient = []
  prog : c.prog = .recv :: rest

theorem speaks_act {flag : UInt64} {c c' : Client} (before : Speaks flag c) (h : c.act = some c') :
    Speaks flag c' := by
  cases before with
  | idle toServer toClient ready =>
    unfold Client.act at h
    split at h
    · cases h
    · next cmd rest prog =>
      cases h
      rw [prog] at ready
      cases rest with
      | nil => simp [Ready] at ready
      | cons action rest =>
        cases action with
        | recv =>
          obtain ⟨sendable, follows⟩ := ready_send.mp ready
          exact .asked (by simp [toServer]) toClient rfl sendable follows
        | send _ | closeIf _ => simp [Ready] at ready
    · next rest prog =>
      rw [prog] at ready
      simp [Ready] at ready
    · next states rest prog =>
      cases h
      rw [prog] at ready
      refine .idle toServer toClient ?_
      dsimp only
      split
      · simp [Ready]
      · next other => exact ready other
  | asked toServer toClient prog sendable follows => simp [Client.act, prog, toClient] at h
  | answered toServer toClient prog ready =>
    simp only [Client.act, prog, toClient, Option.some.injEq] at h
    subst h
    exact .idle toServer rfl ready

theorem fresh_act {c c' : Client} (before : Fresh c) (h : c.act = some c') : Fresh c' := by
  refine ⟨?_, fun flag => speaks_act (before.speaks flag) h⟩
  unfold Client.act at h
  rw [before.toClient] at h
  split at h <;> cases h <;> rfl

theorem fresh_init (p : Program) : Fresh { prog := p.actions } :=
  ⟨rfl, fun flag => .idle rfl rfl (ready_program flag p)⟩

/-- Where the conversation of the client that is served stands, by the place of the main thread. -/
def Talk (w : World n) : Prop :=
  match w.server.main with
  | .receiving => ∃ j, w.current = some j ∧ Speaks w.server.kvm.paused (w.clients j)
  | .exec (.command cmd) _ ops => ∃ j rest, w.current = some j ∧ Asks (w.clients j) rest ∧
    Follows w.server.kvm.paused cmd.type rest ∧
    (cmd.type = .showState → .readState ∉ ops → Tells w.server.kvm.paused w.server.res.state)
  | .replying => ∃ j rest, w.current = some j ∧ Asks (w.clients j) rest ∧
    Ready w.server.kvm.paused w.server.res rest
  | _ => w.current = none

/-- What the serialisation rests on. Once the server has left, nothing is handled any more. -/
structure Serial (w : World n) : Prop where
  sound : Sound w.server
  flag : w.server.kvm.paused = 0 ∨ w.server.kvm.paused = 1
  tells : (∀ type, type.Changes → w.server.handles type = false) → w.server.starting = false →
    Tells w.server.kvm.paused w.server.kvm.state
  fresh : w.server.main ≠ .left → ∀ j, (w.clients j).link = .away ∨ (w.clients j).link = .backlog →
    Fresh (w.clients j)
  current : ∀ j, w.current = some j → (w.clients j).link = .accepted
  talk : Talk w

/-! ## The server's part -/

theorem flag_step {s t : State n} {e : Event n} (text : InText s)
    (before : s.kvm.paused = 0 ∨ s.kvm.paused = 1) (h : step s e = some t) :
    t.kvm.paused = 0 ∨ t.kvm.paused = 1 := by
  cases trace_cases h with
  | op at_ effect next unlabelled event =>
    rcases effect.paused_cases with ⟨v, rfl, stored⟩ | same
    · obtain ⟨cmd, -, ⟨-, rfl, -⟩ | ⟨-, rfl, -⟩⟩ := at_storePaused (text _ _ ⟨_, at_⟩)
      · exact .inr stored
      · exact .inl stored
    · rw [same]
      exact before
  | @finish task ret at_ event result =>
    subst result
    cases task <;> exact before
  | recv at_ event result =>
    subst result
    exact before
  | moves only | kills only =>
    rw [only]
    exact before
  | vcpu side unlabelled =>
    rw [side.frame.paused]
    exact before

theorem tells_shutdown (flag : UInt64) : Tells flag .shutdown := ⟨nofun, nofun⟩

/-- The handlers of the changing commands return with `paused` as their type says. -/
theorem paused_at_return {s : State n} {cmd : MiniKvmStatusCommand} {ret : MiniKVMError}
    (progress : Progress s) (flag : s.kvm.paused = 0 ∨ s.kvm.paused = 1)
    (at_ : s.main = .exec (.command cmd) ret []) : after s.kvm.paused cmd.type = s.kvm.paused := by
  cases kind : cmd.type with
  | pause =>
    have raised := progress.raised kind ⟨ret, at_⟩ (by simp)
    exact (flag.resolve_left raised).symm
  | resume => exact (progress.lowered (.inl kind) ⟨ret, at_⟩ (by simp)).symm
  | shutdown => exact (progress.lowered (.inr kind) ⟨ret, at_⟩ (by simp)).symm
  | _ => rfl

/-- `state` and `paused` agree whenever no handler and not the start is about to change them. -/
theorem tells_step {s t : State n} {e : Event n} (sound : Sound s)
    (flag : s.kvm.paused = 0 ∨ s.kvm.paused = 1)
    (before : (∀ type, type.Changes → s.handles type = false) → s.starting = false →
      Tells s.kvm.paused s.kvm.state)
    (h : step s e = some t) (idle : ∀ type, type.Changes → t.handles type = false)
    (started : t.starting = false) : Tells t.kvm.paused t.kvm.state := by
  -- the start is not over before MINI_KVM_PAUSED is overwritten
  have wasStarted (same : t.kvm.state = s.kvm.state) : s.starting = false := by
    by_contra starting
    simp only [Bool.not_eq_false] at starting
    obtain ⟨rest, here, more⟩ := starting_iff.mp starting
    rcases starting_kept sound.text h starting with kept | other
    · simp [started] at kept
    · exact other (same.trans (sound.startup.closed rest here more).state)
  cases trace_cases h with
  | @op task ret op rest at_ effect next unlabelled event =>
    have wasIdle (type : CommandType) (changes : type.Changes) : s.handles type = false :=
      handles_op at_ next type ▸ idle type changes
    have suffix := sound.text _ _ ⟨ret, at_⟩
    have flag' : t.kvm.paused = s.kvm.paused := by
      rcases effect.paused_cases with ⟨v, rfl, -⟩ | same
      · obtain ⟨cmd, rfl, ⟨kind, -⟩ | ⟨kind, -⟩⟩ := at_storePaused suffix
        · simpa [State.handles, at_] using wasIdle cmd.type (.inl kind)
        · simpa [State.handles, at_] using wasIdle cmd.type (.inr kind)
      · exact same
    rw [flag']
    rcases effect.state_cases with ⟨v, rfl, stored⟩ | same
    · rw [stored]
      rcases at_storeState suffix with ⟨rfl, rfl, rfl⟩ | ⟨-, rfl, -⟩ | ⟨cmd, rfl, kinds⟩
      · -- the barrier is over
        have low := (sound.startup.closed _ ⟨ret, at_⟩ (by simp)).paused
        exact ⟨fun _ => low, by simp⟩
      · exact tells_shutdown _
      · have changes : cmd.type.Changes := by
          rcases kinds with ⟨kind, -⟩ | ⟨kind, -⟩ | ⟨kind, -⟩ <;>
            simp [kind, CommandType.Changes, CommandType.Releases]
        simpa [State.handles, at_] using wasIdle cmd.type changes
    · rw [same]
      exact before wasIdle (wasStarted same)
  | @finish task ret at_ event result =>
    subst event result
    rw [finish_paused, finish_state]
    cases task with
    | startVm | signalBranch =>
      exact before (fun type _ => by simp [State.handles, at_]) (by simp [State.starting, at_])
    | command cmd =>
      by_cases changes : cmd.type.Changes
      · have flag' := paused_at_return sound.progress flag at_
        rcases changes with kind | kind | kind
        · have other := sound.progress.pausing kind ⟨ret, at_⟩ (by simp)
          exact ⟨fun up => absurd up other, fun _ => by simpa [after, kind] using flag'.symm⟩
        · have other := sound.progress.resuming kind ⟨ret, at_⟩ (by simp)
          exact ⟨fun _ => by simpa [after, kind] using flag'.symm, fun up => absurd up other⟩
        · rw [sound.progress.stopping kind ⟨ret, at_⟩ (by simp)]
          exact tells_shutdown _
      · refine before (fun type changes' => ?_) (by simp [State.starting, at_])
        simp only [State.handles, at_, decide_eq_false_iff_not]
        exact fun same => changes (same ▸ changes')
  | @recv cmd at_ event result =>
    subst event result
    exact before (fun type _ => by simp [State.handles, at_]) (by simp [State.starting, at_])
  | moves only unlabelled handles gives =>
    have kvm : t.kvm = s.kvm := by rw [only]
    rw [kvm]
    exact before (fun type changes => handles type ▸ idle type changes) (wasStarted (by rw [kvm]))
  | kills only unlabelled =>
    subst only
    exact before idle started
  | vcpu side unlabelled =>
    have frame := side.frame
    rcases frame.state with same | down
    · rw [frame.paused, same]
      refine before (fun type changes => ?_) ?_
      · exact handles_of_main frame.main type ▸ idle type changes
      · simpa only [State.starting, frame.main] using started
    · rw [down]
      exact tells_shutdown _

/-- An access of the main thread keeps to what the client it serves waits for. -/
theorem follows_op {s t : State n} {cmd : MiniKvmStatusCommand} {ret : MiniKVMError} {op : Op n}
    {rest : List (Op n)} {actions : List Action} (text : InText s)
    (at_ : s.main = .exec (.command cmd) ret (op :: rest)) (effect : op.Effect s t)
    (follows : Follows s.kvm.paused cmd.type actions) : Follows t.kvm.paused cmd.type actions := by
  rcases effect.paused_cases with ⟨v, rfl, -⟩ | same
  · obtain ⟨_, ⟨⟩, ⟨kind, -⟩ | ⟨kind, -⟩⟩ := at_storePaused (text _ _ ⟨ret, at_⟩)
    · exact follows_of_changes (.inl kind) follows
    · exact follows_of_changes (.inr kind) follows
  · rw [same]
    exact follows

/-- The reply to SHOW_STATE tells whether `paused` is set, from the read of the state on. -/
theorem tells_op {s t : State n} {cmd : MiniKvmStatusCommand} {ret : MiniKVMError} {op : Op n}
    {rest : List (Op n)} (text : InText s)
    (tells : (∀ type, type.Changes → s.handles type = false) → s.starting = false →
      Tells s.kvm.paused s.kvm.state)
    (at_ : s.main = .exec (.command cmd) ret (op :: rest)) (effect : op.Effect s t)
    (kind : cmd.type = .showState)
    (told : .readState ∉ op :: rest → Tells s.kvm.paused s.res.state) (read : .readState ∉ rest) :
    Tells t.kvm.paused t.res.state := by
  have query : ¬ cmd.type.Changes := by simp [kind, CommandType.Changes, CommandType.Releases]
  have flag : t.kvm.paused = s.kvm.paused := by
    rcases effect.paused_cases with ⟨v, rfl, -⟩ | same
    · obtain ⟨_, ⟨⟩, ⟨other, -⟩ | ⟨other, -⟩⟩ := at_storePaused (text _ _ ⟨ret, at_⟩)
      · exact absurd (.inl other) query
      · exact absurd (.inr other) query
    · exact same
  rw [flag]
  by_cases reads : op = .readState
  · subst reads
    rw [effect.res]
    refine tells (fun type changes => ?_) (by simp [State.starting, at_])
    simp only [State.handles, at_, decide_eq_false_iff_not]
    exact fun same => query (same ▸ changes)
  · have same : t.res = s.res := by
      have := effect.res
      cases op <;> simp_all
    rw [same]
    exact told (by simp [read, Ne.symm reads])

theorem talk_op {w : World n} {t : State n} {task : Task} {ret : MiniKVMError}
    {op : Op n} {rest : List (Op n)} (serial : Serial w)
    (at_ : w.server.main = .exec task ret (op :: rest)) (effect : op.Effect w.server t)
    (next : t.main = op.next w.server task ret rest) : Talk { w with server := t } := by
  have talk := serial.talk
  have suffix := serial.sound.text _ _ ⟨ret, at_⟩
  have cases_ := Op.next_cases w.server task ret rest op
  unfold Talk at talk ⊢
  rw [at_] at talk
  cases task with
  | startVm | signalBranch =>
    rcases cases_ with ⟨goes, -⟩ | ⟨-, -, goes⟩ | ⟨-, -, goes⟩ <;> simpa only [next, goes] using talk
  | command cmd =>
    obtain ⟨j, actions, current, asks, follows, told⟩ := talk
    have follows' := follows_op serial.sound.text at_ effect follows
    rcases cases_ with ⟨goes, -⟩ | ⟨rfl, -, goes⟩ | ⟨rfl, -, goes⟩
    · simp only [next, goes]
      exact ⟨j, actions, current, asks, follows', fun kind read =>
        tells_op serial.sound.text serial.tells at_ effect kind (told kind) read⟩
    · obtain ⟨_, ⟨⟩, kind, -⟩ := at_ifPaused suffix
      simp only [next, goes]
      exact ⟨j, actions, current, asks, follows', by simp [kind]⟩
    · obtain ⟨_, ⟨⟩, kind⟩ := at_guarded suffix rfl
      simp only [next, goes]
      exact ⟨j, actions, current, asks, follows', by rcases kind with kind | kind <;> simp [kind]⟩

theorem talk_inner {w : World n} {t : State n} {e : Event n} (serial : Serial w)
    (inner : onSocket e = false) (h : step w.server e = some t) : Talk { w with server := t } := by
  have talk := serial.talk
  cases step_cases h with
  | op at_ effect next event => exact talk_op serial at_ effect next
  | @finish task ret at_ =>
    unfold Talk at talk
    rw [at_] at talk
    cases task with
    | startVm =>
      by_cases started : ret = .success <;> simpa [Talk, finish, started] using talk
    | signalBranch => exact talk
    | command cmd =>
      obtain ⟨j, actions, current, asks, follows, told⟩ := talk
      -- the reply that is filled is one the client is ready for
      have ready := follows.2 (finish w.server ret (.command cmd)).res
        fun kind => told kind (by simp)
      rw [paused_at_return serial.sound.progress serial.flag at_] at ready
      exact ⟨j, actions, current, asks, ready⟩
  | @createFails task ret i rest at_ =>
    cases startVm_of_pthreadCreate (serial.sound.text.mem ⟨_, at_⟩)
    unfold Talk at talk ⊢
    rw [at_] at talk
    exact talk
  | queryFails at_ query =>
    obtain ⟨cmd, rfl, kind⟩ := at_guarded (serial.sound.text _ _ ⟨_, at_⟩) query
    unfold Talk at talk
    rw [at_] at talk
    obtain ⟨j, actions, current, asks, follows, -⟩ := talk
    exact ⟨j, actions, current, asks, follows, by rcases kind with kind | kind <;> simp [kind]⟩
  | leave at_ | loop at_ | caught at_ | uncaught at_ =>
    unfold Talk at talk ⊢
    rw [at_] at talk
    exact talk
  | accept connected at_ | recv cmd at_ | recvEnd at_ | reply at_ => cases inner
  | kills => exact talk
  | vcpu side =>
    have frame := side.frame
    unfold Talk at talk ⊢
    simp only [frame.main, frame.paused, frame.res]
    exact talk

/-! ## The network's part -/

theorem left_stays {s t : State n} {e : Event n} (left : s.main = .left) (h : step s e = some t) :
    t.main = .left := by
  cases step_cases h with
  | kills => exact left
  | vcpu side => exact side.frame.main.trans left
  | op at_ | finish at_ | leave at_ | loop at_ | createFails at_ | queryFails at_ | accept _ at_
  | recv _ at_ | recvEnd at_ | reply at_ | caught at_ | uncaught at_ =>
    simp [at_] at left

/-- The server's event in an event of the network. -/
theorem server_step {w w' : World n} {e : NetEvent n} (h : NetCases w e w') :
    w'.server = w.server ∨ ∃ e', step w.server e' = some w'.server := by
  cases h with
  | connect | connectFails | act | endOfFile => exact .inl rfl
  | accept waits at_ alive =>
    exact .inr ⟨.accept true, accept_eq_some.mpr ⟨alive, at_, rfl⟩⟩
  | acceptNone at_ alive =>
    exact .inr ⟨.accept false, accept_eq_some.mpr ⟨alive, at_, rfl⟩⟩
  | serve current sent at_ alive => exact .inr ⟨_, recv_eq_some.mpr ⟨alive, at_, rfl⟩⟩
  | hangUp current sent closed at_ alive =>
    exact .inr ⟨_, recvEnd_eq_some.mpr ⟨alive, at_, rfl⟩⟩
  | reply current at_ listens alive => exact .inr ⟨_, reply_eq_some.mpr ⟨alive, at_, rfl⟩⟩
  | brokenPipe current at_ closed alive =>
    exact .inr ⟨_, brokenPipe_eq_some.mpr ⟨alive, at_, rfl⟩⟩
  | inner own h => exact .inr ⟨_, h⟩

theorem act_link {c c' : Client} (h : c.act = some c') : c'.link = c.link := by
  unfold Client.act at h
  split at h
  · cases h
  · cases h; rfl
  · split at h <;> cases h; rfl
  · cases h; rfl

theorem endOfFile_link {c c' : Client} (h : c.endOfFile = some c') : c'.link = c.link := by
  unfold Client.endOfFile at h
  split at h <;> cases h
  rfl

/-- The link is the server's business. -/
theorem speaks_link {flag : UInt64} {c : Client} (l : Link) (h : Speaks flag c) :
    Speaks flag { c with link := l } := by
  cases h with
  | idle toServer toClient ready => exact .idle toServer toClient ready
  | asked toServer toClient prog sendable follows =>
    exact .asked toServer toClient prog sendable follows
  | answered toServer toClient prog ready => exact .answered toServer toClient prog ready

/-- The clients that are not served change only by their own doing. -/
theorem fresh_step {w w' : World n} {e : NetEvent n} (serial : Serial w) (h : NetCases w e w')
    (up : w'.server.main ≠ .left) (k : Nat)
    (waits : (w'.clients k).link = .away ∨ (w'.clients k).link = .backlog) :
    Fresh (w'.clients k) := by
  have same (up : w.server.main ≠ .left) (kept : w'.clients k = w.clients k) :
      Fresh (w'.clients k) := by
    rw [kept] at waits ⊢
    exact serial.fresh up k waits
  -- a client that is served is accepted
  have served {j : Nat} (current : w.current = some j) : (w.clients j).link = .accepted :=
    serial.current j current
  cases h with
  | @connect j away =>
    by_cases isJ : k = j
    · subst isJ
      have fresh := serial.fresh up k (.inl away)
      rw [World.setClient_clients, if_pos rfl]
      exact ⟨fresh.toClient, fun flag => speaks_link _ (fresh.speaks flag)⟩
    · exact same up (by simp [World.setClient_clients, isJ])
  | @connectFails j away =>
    by_cases isJ : k = j
    · simp [World.setClient_clients, isJ] at waits
    · exact same up (by simp [World.setClient_clients, isJ])
  | @act j c h =>
    by_cases isJ : k = j
    · subst isJ
      rw [World.setClient_clients, if_pos rfl] at waits ⊢
      exact fresh_act (serial.fresh up k (act_link h ▸ waits)) h
    · exact same up (by simp [World.setClient_clients, isJ])
  | endOfFile left h => exact absurd left up
  | @accept j waiting at_ =>
    by_cases isJ : k = j
    · simp [World.setClient_clients, isJ] at waits
    · exact same (by simp [at_]) (by simp [World.setClient_clients, isJ])
  | acceptNone at_ => exact same (by simp [at_]) rfl
  | @serve j cmd cmds current sent at_ =>
    by_cases isJ : k = j
    · simp [World.setClient_clients, isJ, served current] at waits
    · exact same (by simp [at_]) (by simp [World.setClient_clients, isJ])
  | hangUp current sent closed at_ => exact same (by simp [at_]) rfl
  | @reply j current at_ =>
    by_cases isJ : k = j
    · simp [World.setClient_clients, isJ, served current] at waits
    · exact same (by simp [at_]) (by simp [World.setClient_clients, isJ])
  | brokenPipe current at_ => exact same (by simp [at_]) rfl
  | inner own h => exact same (fun left => up (left_stays left h)) rfl

theorem current_step {w w' : World n} {e : NetEvent n} (serial : Serial w) (h : NetCases w e w')
    (k : Nat) (current' : w'.current = some k) : (w'.clients k).link = .accepted := by
  cases h with
  | @connect j away | @connectFails j away =>
    have served := serial.current k current'
    have other : k ≠ j := fun same => by simp [← same, served] at away
    simp [World.setClient_clients, other, served]
  | @act j c h =>
    have served := serial.current k current'
    by_cases isJ : k = j
    · subst isJ
      simp [World.setClient_clients, act_link h, served]
    · simp [World.setClient_clients, isJ, served]
  | @endOfFile j c left h =>
    have served := serial.current k current'
    by_cases isJ : k = j
    · subst isJ
      simp [World.setClient_clients, endOfFile_link h, served]
    · simp [World.setClient_clients, isJ, served]
  | accept waiting at_ =>
    cases current'
    simp [World.setClient_clients]
  | @serve j _ _ current | @reply j current =>
    have served := serial.current k current'
    by_cases isJ : k = j
    · subst isJ
      simp [World.setClient_clients, served]
    · simp [World.setClient_clients, isJ, served]
  | hangUp => cases current'
  | acceptNone | brokenPipe | inner => exact serial.current k current'

/-- A conversation goes on as long as its own client is let alone. -/
theorem talk_elsewhere {w w' : World n} (talk : Talk w) (server : w'.server = w.server)
    (current : w'.current = w.current)
    (kept : ∀ k, w.current = some k → w'.clients k = w.clients k) : Talk w' := by
  unfold Talk at talk ⊢
  rw [server, current]
  cases at_ : w.server.main with
  | receiving =>
    rw [at_] at talk
    obtain ⟨j, current', speaks⟩ := talk
    exact ⟨j, current', kept j current' ▸ speaks⟩
  | replying =>
    rw [at_] at talk
    obtain ⟨j, actions, current', asks, ready⟩ := talk
    exact ⟨j, actions, current', kept j current' ▸ asks, ready⟩
  | exec task ret ops =>
    rw [at_] at talk
    cases task with
    | startVm | signalBranch => exact talk
    | command cmd =>
      obtain ⟨j, actions, current', asks, follows⟩ := talk
      exact ⟨j, actions, current', kept j current' ▸ asks, follows⟩
  | loopTest | accepting | sigTest | left =>
    rw [at_] at talk
    exact talk

/-- The client that is served goes on only while the server waits for it. -/
theorem talk_act {w : World n} {j : Nat} {c : Client} (talk : Talk w) (served : w.current = some j)
    (h : (w.clients j).act = some c) : Talk (w.setClient j c) := by
  have here : (w.setClient j c).clients j = c := by simp [World.setClient_clients]
  have blocked (actions : List Action) (asks : Asks (w.clients j) actions) : False := by
    simp [Client.act, asks.prog, asks.toClient] at h
  have server : (w.setClient j c).server = w.server := rfl
  unfold Talk at talk ⊢
  rw [server]
  cases at_ : w.server.main with
  | receiving =>
    rw [at_] at talk
    obtain ⟨k, current, speaks⟩ := talk
    cases served.symm.trans current
    exact ⟨j, current, by rw [here]; exact speaks_act speaks h⟩
  | replying =>
    rw [at_] at talk
    obtain ⟨k, actions, current, asks, -⟩ := talk
    cases served.symm.trans current
    exact (blocked actions asks).elim
  | exec task ret ops =>
    rw [at_] at talk
    cases task with
    | startVm | signalBranch => simp [served] at talk
    | command cmd =>
      obtain ⟨k, actions, current, asks, -⟩ := talk
      cases served.symm.trans current
      exact (blocked actions asks).elim
  | loopTest | accepting | sigTest | left =>
    rw [at_] at talk
    simp [served] at talk

theorem talk_step {w w' : World n} {e : NetEvent n} (serial : Serial w) (h : NetCases w e w') :
    Talk w' := by
  have talk := serial.talk
  have elsewhere {j : Nat} (c : Client) (other : w.current ≠ some j) : Talk (w.setClient j c) :=
    talk_elsewhere talk rfl rfl fun k current => by
      have : k ≠ j := fun same => other (same ▸ current)
      simp [World.setClient_clients, this]
  cases h with
  | @connect j away | @connectFails j away =>
    exact elsewhere _ fun current => by simp [serial.current j current] at away
  | @act j c h =>
    by_cases current : w.current = some j
    · exact talk_act talk current h
    · exact elsewhere c current
  | endOfFile left h =>
    refine elsewhere _ fun current => ?_
    unfold Talk at talk
    rw [left] at talk
    simp [current] at talk
  | @accept j waits at_ =>
    have fresh := serial.fresh (by simp [at_]) j (.inr waits)
    exact ⟨j, rfl, by simpa [World.setClient_clients] using speaks_link _ (fresh.speaks _)⟩
  | acceptNone at_ =>
    unfold Talk at talk
    rw [at_] at talk
    exact talk
  | @serve j cmd cmds current sent at_ =>
    unfold Talk at talk
    rw [at_] at talk
    obtain ⟨k, current', speaks⟩ := talk
    cases current.symm.trans current'
    cases speaks with
    | idle toServer | answered toServer => simp [sent] at toServer
    | @asked cmd' rest toServer toClient prog sendable follows =>
      obtain ⟨rfl, rfl⟩ := List.cons.inj (sent.symm.trans toServer)
      refine ⟨j, rest, current, ?_, follows, fun kind unread => ?_⟩
      · have asks : Asks { w.clients j with toServer := [] } rest := ⟨rfl, toClient, prog⟩
        simpa [World.setClient_clients] using asks
      · simp [miniKvmStatusHandleCommand, handlers, kind, statusHandleCmdState] at unread
  | hangUp current sent closed at_ => rfl
  | @reply j current at_ =>
    unfold Talk at talk
    rw [at_] at talk
    obtain ⟨k, actions, current', asks, ready⟩ := talk
    cases current.symm.trans current'
    have answered : Speaks w.server.kvm.paused
        { w.clients j with toClient := (w.clients j).toClient ++ [w.server.res] } :=
      .answered asks.toServer (by simp [asks.toClient]) asks.prog ready
    exact ⟨j, current, by simpa [World.setClient_clients] using answered⟩
  | brokenPipe => exact talk
  | inner own h => exact talk_inner serial own h

theorem serial_step {w w' : World n} {e : NetEvent n} (before : Serial w)
    (h : netStep w e = some w') : Serial w' := by
  have net := net_cases h
  rcases server_step net with same | ⟨e', hs⟩
  · exact ⟨same ▸ before.sound, same ▸ before.flag, same ▸ before.tells, fresh_step before net,
      current_step before net, talk_step before net⟩
  · exact ⟨sound_step before.sound hs, flag_step before.sound.text before.flag hs,
      tells_step before.sound before.flag before.tells hs, fresh_step before net,
      current_step before net, talk_step before net⟩

theorem serial_init (programs : Nat → Program) : Serial (World.init n programs) where
  sound := sound_init
  flag := .inl rfl
  tells _ started := by
    have : (init n).starting = true :=
      starting_iff.mpr ⟨_, ⟨_, rfl⟩, by simp [miniKvmStartVm]⟩
    exact absurd (this.symm.trans started) (by simp)
  fresh _ j _ := fresh_init (programs j)
  current j h := by cases h
  talk := rfl

/-! ## Alternation -/

/-- The PAUSE and RESUME commands of a trace. -/
def switches (past : List Label) : List CommandType :=
  past.filterMap fun l =>
    match l with
    | .began .pause => some .pause
    | .began .resume => some .resume
    | _ => none

/-- A SHUTDOWN command has been received. -/
def goingDown (past : List Label) : Bool := decide (.began .shutdown ∈ past)

/-- The command whose turn it is. -/
def due (past : List Label) : CommandType := turn .pause .resume (switches past)

/-- The client has nothing more to send. -/
def Silent (c : Client) : Prop := c.toServer = [] ∧ (c.prog = [] ∨ c.prog = [.recv])

/-- A SHUTDOWN is handled, or has been: its client sends nothing more, and the server leaves. -/
def Ending (w : World n) : Prop :=
  match w.server.main with
  | .exec (.command cmd) _ _ => cmd.type = .shutdown
  | .exec .startVm _ _ | .accepting => False
  | .receiving | .replying =>
    w.server.kvm.state = .shutdown ∧ ∀ j, w.current = some j → Silent (w.clients j)
  | _ => w.server.kvm.state = .shutdown

/-- `paused` tells whose turn it is, until SHUTDOWN. -/
structure Due (past : List Label) (s : State n) : Prop where
  idle : s.handles .pause = false → s.handles .resume = false →
    due past = if s.kvm.paused = 0 then .pause else .resume
  pausing : s.handles .pause = true → due past = .resume
  resuming : s.handles .resume = true → due past = .pause
  staysUp : s.handles .shutdown = false

structure Turns (past : List Label) (w : World n) : Prop where
  alternates : Alternates .pause .resume (switches past)
  due : goingDown past = false → Due past w.server
  ending : goingDown past = true → Ending w

theorem due_same {past : List Label} {s t : State n} (before : Due past s)
    (flag : t.kvm.paused = s.kvm.paused) (handles : ∀ type, t.handles type = s.handles type) :
    Due past t := by
  refine ⟨?_, ?_, ?_, ?_⟩ <;> simp only [flag, handles]
  · exact before.idle
  · exact before.pausing
  · exact before.resuming
  · exact before.staysUp

theorem due_finish {past : List Label} {s : State n} {task : Task} {ret : MiniKVMError}
    (progress : Progress s) (before : Due past s) (at_ : s.main = .exec task ret []) :
    Due past (finish s ret task) := by
  have idle := handles_finish s ret task
  refine ⟨fun _ _ => ?_, by simp [idle], by simp [idle], idle _⟩
  rw [finish_paused]
  by_cases pause : s.handles .pause = true
  · obtain ⟨cmd, rfl, kind⟩ := command_of_handles at_ pause
    rw [before.pausing pause, if_neg (progress.raised kind ⟨ret, at_⟩ (by simp))]
  · by_cases resume : s.handles .resume = true
    · obtain ⟨cmd, rfl, kind⟩ := command_of_handles at_ resume
      rw [before.resuming resume, if_pos (progress.lowered (.inl kind) ⟨ret, at_⟩ (by simp))]
    · exact before.idle (by simpa using pause) (by simpa using resume)

theorem due_inner {past : List Label} {s t : State n} {e : Event n} (sound : Sound s)
    (before : Due past s) (own : onSocket e = false) (h : step s e = some t) : Due past t := by
  cases trace_cases h with
  | @op task ret op rest at_ effect next unlabelled event =>
    have handles := handles_op at_ next
    rcases effect.paused_cases with ⟨v, rfl, -⟩ | same
    · obtain ⟨cmd, rfl, kind⟩ := at_storePaused (sound.text _ _ ⟨ret, at_⟩)
      have busy : s.handles cmd.type = true := by simp [State.handles, at_]
      refine ⟨fun pause resume => ?_, ?_, ?_, ?_⟩ <;> simp only [handles] at *
      · -- only PAUSE and RESUME are left to make this store
        have stays := before.staysUp
        rcases kind with ⟨kind, -⟩ | ⟨kind | kind, -⟩ <;> simp_all
      · exact before.pausing
      · exact before.resuming
      · exact before.staysUp
    · exact due_same before same handles
  | finish at_ event result =>
    subst result
    exact due_finish sound.progress before at_
  | recv at_ event result =>
    subst event
    cases own
  | moves only unlabelled handles gives => exact due_same before (by rw [only]) handles
  | kills only => exact due_same before (by rw [only]) fun type => by rw [only]; rfl
  | vcpu side unlabelled =>
    exact due_same before side.frame.paused (handles_of_main side.frame.main)

theorem silent_act {c c' : Client} (h : c.act = some c') (before : Silent c) : Silent c' := by
  obtain ⟨toServer, closed | waits⟩ := before
  · simp [Client.act, closed] at h
  · unfold Client.act at h
    rw [waits] at h
    cases toClient : c.toClient with
    | nil => simp [toClient] at h
    | cons r rs =>
      simp only [toClient, Option.some.injEq] at h
      subst h
      exact ⟨toServer, .inl rfl⟩

theorem ending_mono {w w' : World n} (before : Ending w) (main : w'.server.main = w.server.main)
    (state : w.server.kvm.state = .shutdown → w'.server.kvm.state = .shutdown)
    (clients : ∀ j, w'.current = some j →
      w.current = some j ∧ (Silent (w.clients j) → Silent (w'.clients j))) : Ending w' := by
  unfold Ending at before ⊢
  rw [main]
  cases at_ : w.server.main with
  | exec task ret ops =>
    rw [at_] at before
    cases task with
    | signalBranch => exact state before
    | startVm | command cmd => exact before
  | receiving | replying =>
    rw [at_] at before
    refine ⟨state before.1, fun j current => ?_⟩
    obtain ⟨was, silent⟩ := clients j current
    exact silent (before.2 j was)
  | accepting =>
    rw [at_] at before
    exact before
  | loopTest | sigTest | left =>
    rw [at_] at before
    exact state before

theorem ending_inner {w : World n} {t : State n} {e : Event n} (serial : Serial w)
    (before : Ending w) (own : onSocket e = false) (h : step w.server e = some t) :
    Ending { w with server := t } := by
  have text := serial.sound.text
  cases step_cases h with
  | @op _ task ret op rest _ at_ effect next event =>
    unfold Ending at before ⊢
    rw [at_] at before
    dsimp only
    rw [next]
    cases task with
    | startVm => exact before.elim
    | command cmd =>
      rcases Op.next_cases w.server (.command cmd) ret rest op with
        ⟨goes, -⟩ | ⟨-, -, goes⟩ | ⟨-, -, goes⟩ <;> rw [goes] <;> exact before
    | signalBranch =>
      have down : t.kvm.state = .shutdown := by
        rcases effect.state_cases with ⟨v, rfl, stored⟩ | same
        · rcases at_storeState (text _ _ ⟨ret, at_⟩) with ⟨⟨⟩, -⟩ | ⟨-, rfl, -⟩ | ⟨cmd, ⟨⟩, -⟩
          exact stored
        · exact same.trans before
      rcases Op.next_cases w.server .signalBranch ret rest op with
        ⟨goes, -⟩ | ⟨-, -, goes⟩ | ⟨-, -, goes⟩ <;> rw [goes] <;> exact down
  | @finish task ret at_ =>
    have talk := serial.talk
    unfold Talk at talk
    unfold Ending at before
    rw [at_] at before talk
    cases task with
    | startVm => exact before.elim
    | signalBranch => exact before
    | command cmd =>
      obtain ⟨j, actions, current, asks, follows, -⟩ := talk
      obtain rfl := follows.1 before
      refine ⟨serial.sound.progress.stopping before ⟨ret, at_⟩ (by simp), fun k current' => ?_⟩
      cases current.symm.trans current'
      exact ⟨asks.toServer, .inr asks.prog⟩
  | createFails at_ =>
    cases startVm_of_pthreadCreate (text.mem ⟨_, at_⟩)
    simp [Ending, at_] at before
  | queryFails at_ query =>
    obtain ⟨cmd, rfl, kind⟩ := at_guarded (text _ _ ⟨_, at_⟩) query
    simp only [Ending, at_] at before
    rcases kind with kind | kind <;> simp [before] at kind
  | loop at_ up =>
    simp only [Ending, at_] at before
    exact absurd before up
  | leave at_ | caught at_ | uncaught at_ =>
    simp only [Ending, at_] at before
    exact before
  | accept _ at_ | recv _ at_ | recvEnd at_ | reply at_ => cases own
  | kills => exact before
  | vcpu side =>
    have frame := side.frame
    exact ending_mono before frame.main (fun was => frame.state.elim (fun same => same.trans was) id)
      fun j current => ⟨current, id⟩

theorem ending_step {w w' : World n} {e : NetEvent n} (serial : Serial w) (before : Ending w)
    (h : NetCases w e w') : Ending w' := by
  have aside {j : Nat} (c : Client) (silent : w.current = some j → Silent (w.clients j) → Silent c) :
      Ending (w.setClient j c) := by
    refine ending_mono before rfl id fun k current => ⟨current, fun was => ?_⟩
    rw [World.setClient_clients]
    split
    · next same => subst same; exact silent current was
    · exact was
  cases h with
  | connect away | connectFails away =>
    refine aside _ fun current => ?_
    simp [serial.current _ current] at away
  | act h => exact aside _ fun _ => silent_act h
  | endOfFile left h =>
    refine aside _ fun current => ?_
    have talk := serial.talk
    simp [Talk, left, current] at talk
  | accept waits at_ | acceptNone at_ => simp [Ending, at_] at before
  | serve current sent at_ =>
    simp only [Ending, at_] at before
    simp [(before.2 _ current).1] at sent
  | hangUp current sent closed at_ =>
    simp only [Ending, at_] at before
    exact before.1
  | @reply j current at_ =>
    simp only [Ending, at_] at before
    refine ⟨before.1, fun k current' => ?_⟩
    cases current.symm.trans current'
    simpa [World.setClient_clients, Silent] using before.2 j current
  | brokenPipe => exact before
  | inner own h => exact ending_inner serial before own h

theorem switches_append (past : List Label) (l : Option Label) :
    switches (past ++ l.toList) = match l with
      | some (.began .pause) => switches past ++ [.pause]
      | some (.began .resume) => switches past ++ [.resume]
      | _ => switches past := by
  cases l with
  | none => simp
  | some l =>
    simp only [switches, Option.toList_some, List.filterMap_append]
    cases l with
    | began type => cases type <;> simp
    | returned type ret => simp

theorem goingDown_append (past : List Label) (l : Option Label) :
    goingDown (past ++ l.toList) = (goingDown past || decide (l = some (.began .shutdown))) := by
  cases l with
  | none => simp [goingDown]
  | some l => simp [goingDown, eq_comm]

theorem sendable_serve {w : World n} {j : Nat} {cmd : MiniKvmStatusCommand}
    {cmds : List MiniKvmStatusCommand} (serial : Serial w) (current : w.current = some j)
    (sent : (w.clients j).toServer = cmd :: cmds) (at_ : w.server.main = .receiving) :
    Sendable w.server.kvm.paused cmd.type := by
  have talk := serial.talk
  simp only [Talk, at_] at talk
  obtain ⟨k, current', speaks⟩ := talk
  cases current.symm.trans current'
  cases speaks with
  | idle toServer | answered toServer => simp [sent] at toServer
  | asked toServer toClient prog sendable follows =>
    obtain ⟨rfl, rfl⟩ := List.cons.inj (sent.symm.trans toServer)
    exact sendable

/-- A received command is the one whose turn it is. -/
theorem turns_serve {past : List Label} {w : World n} {j : Nat} {cmd : MiniKvmStatusCommand}
    {cmds : List MiniKvmStatusCommand} (serial : Serial w) (before : Turns past w)
    (current : w.current = some j) (sent : (w.clients j).toServer = cmd :: cmds)
    (at_ : w.server.main = .receiving) :
    Turns (past ++ [.began cmd.type])
      { w.setClient j { w.clients j with toServer := cmds } with
        server := { w.server with
          main := .exec (.command cmd) .success (miniKvmStatusHandleCommand cmd) } } := by
  have up : goingDown past = false := by
    by_contra down
    have ending := before.ending (by simpa using down)
    simp only [Ending, at_] at ending
    simp [(ending.2 j current).1] at sent
  have now := (before.due up).idle (by simp [State.handles, at_]) (by simp [State.handles, at_])
  have sendable := sendable_serve serial current sent at_
  have switched := switches_append past (some (.began cmd.type))
  have shut := goingDown_append past (some (.began cmd.type))
  simp only [Option.toList_some] at switched shut
  have swap := turn_swap (by simp : CommandType.pause ≠ .resume) (switches past)
  change turn _ _ _ = if due past = _ then _ else _ at swap
  cases kind : cmd.type with
  | pause =>
    simp only [kind, up] at switched shut sendable
    rw [if_pos (sendable.1 rfl)] at now
    rw [if_pos now] at swap
    refine ⟨?_, fun _ => ⟨?_, fun _ => ?_, ?_, ?_⟩, by simp [shut]⟩
    · exact switched ▸ alternates_append_singleton.mpr ⟨before.alternates, now.symm⟩
    · simp [State.handles, kind]
    · rw [due, switched, turn_append_singleton, swap]
    · simp [State.handles, kind]
    · simp [State.handles, kind]
  | resume =>
    simp only [kind, up] at switched shut sendable
    have high := sendable.2 rfl
    rw [if_neg (by simp [high])] at now
    rw [if_neg (by simp [now])] at swap
    refine ⟨?_, fun _ => ⟨?_, ?_, fun _ => ?_, ?_⟩, by simp [shut]⟩
    · exact switched ▸ alternates_append_singleton.mpr ⟨before.alternates, now.symm⟩
    · simp [State.handles, kind]
    · simp [State.handles, kind]
    · rw [due, switched, turn_append_singleton, swap]
    · simp [State.handles, kind]
  | shutdown =>
    simp only [kind] at switched shut
    exact ⟨switched ▸ before.alternates, by simp [shut], fun _ => by simp [Ending, kind]⟩
  | none | showState | showRegs | dumpMem =>
    simp only [kind, up] at switched shut
    refine ⟨switched ▸ before.alternates, fun _ => ⟨fun _ _ => ?_, ?_, ?_, ?_⟩, by simp [shut]⟩
    · rw [due, switched]
      exact now
    · simp [State.handles, kind]
    · simp [State.handles, kind]
    · simp [State.handles, kind]

theorem due_of_switches {past past' : List Label} {s : State n}
    (same : switches past' = switches past) (before : Due past s) : Due past' s := by
  have turn : due past' = due past := by simp only [due, same]
  exact ⟨fun h h' => turn.trans (before.idle h h'), fun h => turn.trans (before.pausing h),
    fun h => turn.trans (before.resuming h), before.staysUp⟩

theorem not_began {w : World n} {e : Event n} (own : onSocket e = false) (type : CommandType) :
    netLabel w (.inner e) ≠ some (.began type) := by
  simp only [netLabel, own, Bool.false_eq_true, if_false]
  cases e with
  | recv cmd => cases own
  | main =>
    simp only [label]
    split <;> simp
  | _ => simp [label]

theorem turns_step {past : List Label} {w w' : World n} {e : NetEvent n} (serial : Serial w)
    (before : Turns past w) (h : netStep w e = some w') :
    Turns (past ++ (netLabel w e).toList) w' := by
  have net := net_cases h
  -- where nothing is received, only the server's own steps matter
  have unreceived (label : ∀ type, netLabel w e ≠ some (.began type))
      (due : ∀ past, Due past w.server → Due past w'.server) :
      Turns (past ++ (netLabel w e).toList) w' := by
    have switched : switches (past ++ (netLabel w e).toList) = switches past := by
      rw [switches_append]
      split <;> simp_all
    have shut : goingDown (past ++ (netLabel w e).toList) = goingDown past := by
      rw [goingDown_append]
      simp [label]
    refine ⟨switched ▸ before.alternates, fun up => due _ ?_, fun down => ?_⟩
    · exact due_of_switches switched (before.due (shut ▸ up))
    · exact ending_step serial (before.ending (shut ▸ down)) net
  cases net with
  | connect | connectFails | act | endOfFile => exact unreceived (by simp [netLabel]) fun _ => id
  | accept waits at_ | acceptNone at_ =>
    exact unreceived (by simp [netLabel]) fun past before =>
      due_same before rfl fun type => by simp [State.handles, at_]
  | hangUp current sent closed at_ =>
    exact unreceived (by simp [netLabel, current, sent]) fun past before =>
      due_same before rfl fun type => by simp [State.handles, at_]
  | reply current at_ =>
    exact unreceived (by simp [netLabel]) fun past before =>
      due_same before rfl fun type => by simp [State.handles, at_]
  | brokenPipe =>
    exact unreceived (by simp [netLabel]) fun past before => due_same before rfl fun _ => rfl
  | inner own hs =>
    exact unreceived (not_began own) fun past before => due_inner serial.sound before own hs
  | @serve j cmd cmds current sent at_ =>
    have label : netLabel w .serve = some (.began cmd.type) := by simp [netLabel, current, sent]
    rw [label]
    exact turns_serve serial before current sent at_

theorem turns_init (programs : Nat → Program) : Turns [] (World.init n programs) where
  alternates := trivial
  due _ := ⟨fun _ _ => rfl, nofun, nofun, rfl⟩
  ending h := by simp [goingDown] at h

/-- The server takes up PAUSE only when `paused` is 0, and RESUME only when it is 1. -/
def Licensed (_ : List Label) (w : World n) (e : NetEvent n) : Prop :=
  ∀ type, netLabel w e = some (.began type) → Sendable w.server.kvm.paused type

theorem licensed_step {w w' : World n} {e : NetEvent n} (past : List Label) (serial : Serial w)
    (h : netStep w e = some w') : Licensed past w e := by
  intro type begins
  cases net_cases h with
  | inner own h => exact absurd begins (not_began own type)
  | serve current sent at_ =>
    simp only [netLabel, current, sent, Option.bind_some, List.head?_cons, Option.some.injEq,
      Label.began.injEq] at begins
    exact begins ▸ sendable_serve serial current sent at_
  | hangUp current sent closed at_ => simp [netLabel, current, sent] at begins
  | _ => cases begins

/-- Whatever clients there are and however they interleave, the server takes up PAUSE only when the
VM is not paused and RESUME only when it is, and it takes them up in turns, starting with PAUSE. -/
theorem clients_serialise (programs : Nat → Program)
    (r : (network n).Run (World.init n programs)) :
    (network n).Steps Licensed [] (World.init n programs) r.events ∧
      Alternates .pause .resume (switches ((network n).trace (World.init n programs) r.events)) := by
  have preserved (w : World n) (e : NetEvent n) (w' : World n) (before : Serial w)
      (h : netStep w e = some w') : Serial w' := serial_step before h
  constructor
  · exact (network n).steps_of_invariant Serial preserved
      (fun past w e w' serial h => licensed_step past serial h) (serial_init programs) r.reaches
  · have both := (network n).invariant_run (fun past w => Serial w ∧ Turns past w)
      (fun past w e w' before _ h => ⟨serial_step before.1 h, turns_step before.1 before.2 h⟩)
      ⟨serial_init programs, turns_init programs⟩
      ((network n).steps_of_forall (fun _ _ _ => trivial) _ _ _) r.reaches
    exact both.2.alternates

end MiniKvm.Guarantees.ClientSerial
