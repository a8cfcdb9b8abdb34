import MiniKvm.Source.Clients
import MiniKvm.Source.ServerInvariants

/-!
# What passes between the clients and the server

The world of Source.Clients with a trace of every message: when it is sent, taken up by the server,
answered and received, and when the SHOW_STATE handler reads `kvm->state`. The clients here send
whole commands and take replies, in any order.
-/
namespace MiniKvm.Source.Clients
open Source.Server

inductive Entry where
  | sent (j : Nat) (cmd : MiniKvmStatusCommand)
  | served (j : Nat) (cmd : MiniKvmStatusCommand)
  | observed (v : VMState)
  | answered (j : Nat) (r : Reply)
  | received (j : Nat) (r : Reply)

section Steps

variable {n : Nat}

/-- What the next action of a client, if it can make it, does on its socket. -/
def Client.entry (c : Client) (j : Nat) : Option Entry :=
  match c.prog, c.toClient with
  | .send cmd :: _, _ => some (.sent j cmd)
  | .recv :: _, r :: _ => some (.received j r)
  | _, _ => none

/-- What the SHOW_STATE handler reads. -/
def observation (s : State n) : Event n → Option VMState
  | .main =>
    match s.main with
    | .exec _ _ (.readState :: _) => some s.kvm.state
    | _ => none
  | _ => none

def entry (w : World n) : NetEvent n → Option Entry
  | .act j => (w.clients j).entry j
  | .serve => w.current.bind fun j => (w.clients j).toServer.head?.map (.served j)
  -- the reply to a client that is gone reaches nobody
  | .reply => w.current.bind fun j =>
    if (w.clients j).prog = [] then none else some (.answered j w.server.res)
  | .inner e => (observation w.server e).map .observed
  | _ => none

def exchange (n : Nat) : Lib.Lts.System (World n) (NetEvent n) Entry := ⟨netStep, entry⟩

/-- Clients with any program, none of them connected. -/
def World.start (n : Nat) (progs : Nat → List Action) : World n where
  server := Server.init n
  clients j := { prog := progs j }
  current := none

/-! ## Histories -/

def sentBy (j : Nat) (past : List Entry) : List MiniKvmStatusCommand :=
  past.filterMap fun
    | .sent k cmd => if k = j then some cmd else none
    | _ => none

def servedTo (j : Nat) (past : List Entry) : List MiniKvmStatusCommand :=
  past.filterMap fun
    | .served k cmd => if k = j then some cmd else none
    | _ => none

def answeredTo (j : Nat) (past : List Entry) : List Reply :=
  past.filterMap fun
    | .answered k r => if k = j then some r else none
    | _ => none

def receivedBy (j : Nat) (past : List Entry) : List Reply :=
  past.filterMap fun
    | .received k r => if k = j then some r else none
    | _ => none

/-- The fields of a reply that name its command. -/
def commandHeader (cmd : MiniKvmStatusCommand) : CommandType × UInt64 := (cmd.type, cmd.vcpus)

def replyHeader (r : Reply) : CommandType × UInt64 := (r.cmdType, r.vcpus)

/-! ## Where the server is -/

/-- The server is in its loop over a connection. -/
def engaged (s : State n) : Bool :=
  match s.main with
  | .receiving | .replying | .exec (.command _) _ _ => true
  | _ => false

/-- The command that the server has taken up and not yet answered. -/
def busy (s : State n) : List (CommandType × UInt64) :=
  match s.main with
  | .exec (.command cmd) _ _ => [commandHeader cmd]
  | .replying => [replyHeader s.res]
  | _ => []

/-- That command, if it is one of client `j`. -/
def underway (w : World n) (j : Nat) : List (CommandType × UInt64) :=
  if w.current = some j then busy w.server else []

/-- Away from its sockets the server neither takes up a command nor lets go of one. -/
theorem engaged_inner {s t : State n} {e : Event n} (text : InText s) (own : onSocket e = false)
    (h : step s e = some t) : engaged t = engaged s ∧ busy t = busy s := by
  cases step_cases h with
  | @op _ task ret op rest _ at_ effect next event =>
    rcases Op.next_cases s task ret rest op with ⟨goes, -⟩ | ⟨-, -, goes⟩ | ⟨-, -, goes⟩ <;>
      cases task <;> simp [engaged, busy, next, goes, at_]
  | @finish task ret at_ =>
    cases task with
    | startVm => by_cases started : ret = .success <;> simp [engaged, busy, finish, at_, started]
    | signalBranch => simp [engaged, busy, finish, at_]
    | command cmd => simp [engaged, busy, finish, at_, commandHeader, replyHeader]
  | @createFails task ret i rest at_ =>
    cases startVm_of_pthreadCreate (text.mem ⟨_, at_⟩)
    simp [engaged, busy, at_]
  | @queryFails task ret op rest at_ query =>
    cases task <;> simp [engaged, busy, at_]
  | accept _ at_ | recv _ at_ | recvEnd at_ | reply at_ => cases own
  | leave at_ | loop at_ | caught at_ | uncaught at_ => simp [engaged, busy, at_]
  | kills => exact ⟨rfl, rfl⟩
  | vcpu side =>
    have frame := side.frame
    simp only [engaged, busy, frame.main, frame.res, and_self]

/-! ## The account of the messages -/

/-- A client's commands and replies, and where the server is, after a trace. -/
structure Ledger (past : List Entry) (w : World n) : Prop where
  text : InText w.server
  engaged : Clients.engaged w.server = w.current.isSome
  commands : ∀ j, sentBy j past = servedTo j past ++ (w.clients j).toServer
  replies : ∀ j, answeredTo j past = receivedBy j past ++ (w.clients j).toClient
  matched : ∀ j, (servedTo j past).map commandHeader =
    (answeredTo j past).map replyHeader ++ underway w j

theorem ledger_init (progs : Nat → List Action) : Ledger [] (World.start n progs) where
  text := inText_init
  engaged := rfl
  commands _ := rfl
  replies _ := rfl
  matched _ := rfl

/-- What the action of a client does on its socket. -/
theorem act_messages {c c' : Client} {j : Nat} (h : c.act = some c') :
    (∃ cmd, c.entry j = some (.sent j cmd) ∧ c'.toServer = c.toServer ++ [cmd] ∧
        c'.toClient = c.toClient) ∨
      (∃ r, c.entry j = some (.received j r) ∧ c.toClient = r :: c'.toClient ∧
        c'.toServer = c.toServer) ∨
      c.entry j = none ∧ c'.toServer = c.toServer ∧ c'.toClient = c.toClient := by
  unfold Client.act at h
  split at h
  · cases h
  · next cmd rest prog =>
    cases h
    exact .inl ⟨cmd, by simp [Client.entry, prog], rfl, rfl⟩
  · next rest prog =>
    split at h
    · cases h
    · next r rs toClient =>
      cases h
      exact .inr (.inl ⟨r, by simp [Client.entry, prog, toClient], toClient, rfl⟩)
  · next states rest prog =>
    cases h
    exact .inr (.inr ⟨by simp [Client.entry, prog], rfl, rfl⟩)

theorem link_of_act {c c' : Client} (h : c.act = some c') : c'.link = c.link ∧ c.prog ≠ [] := by
  unfold Client.act at h
  split at h
  · cases h
  · next prog => cases h; simp [prog]
  · next prog => split at h <;> cases h; simp [prog]
  · next prog => cases h; simp [prog]

theorem link_of_endOfFile {c c' : Client} (h : c.endOfFile = some c') :
    c'.link = c.link ∧ c.prog ≠ [] := by
  unfold Client.endOfFile at h
  split at h
  · next prog _ => cases h; simp [prog]
  · cases h

theorem endOfFile_messages {c c' : Client} (h : c.endOfFile = some c') :
    c'.toServer = c.toServer ∧ c'.toClient = c.toClient := by
  unfold Client.endOfFile at h
  split at h
  · cases h
    exact ⟨rfl, rfl⟩
  · cases h

/-- A step that moves no message keeps the account. -/
theorem Ledger.silent {past : List Entry} {w w' : World n} {e : NetEvent n} (ledger : Ledger past w)
    (none_ : entry w e = none) (text : InText w'.server)
    (engaged : Clients.engaged w'.server = w'.current.isSome)
    (kept : ∀ j, (w'.clients j).toServer = (w.clients j).toServer ∧
      (w'.clients j).toClient = (w.clients j).toClient)
    (underway_ : ∀ j, underway w' j = underway w j) :
    Ledger (past ++ (entry w e).toList) w' := by
  rw [none_, Option.toList_none, List.append_nil]
  refine ⟨text, engaged, fun j => ?_, fun j => ?_, fun j => ?_⟩
  · rw [(kept j).1, ledger.commands j]
  · rw [(kept j).2, ledger.replies j]
  · rw [underway_ j, ledger.matched j]

theorem setClient_kept {w : World n} {j : Nat} {c : Client}
    (toServer : c.toServer = (w.clients j).toServer)
    (toClient : c.toClient = (w.clients j).toClient) (k : Nat) :
    ((w.setClient j c).clients k).toServer = (w.clients k).toServer ∧
      ((w.setClient j c).clients k).toClient = (w.clients k).toClient := by
  rw [World.setClient_clients]
  split
  · next same => exact same ▸ ⟨toServer, toClient⟩
  · exact ⟨rfl, rfl⟩

theorem inText_net {w w' : World n} {e : NetEvent n} (text : InText w.server)
    (moves : netStep w e = some w') : InText w'.server := by
  have moved (e' : Event n) {t : State n} (h : step w.server e' = some t) : InText t :=
    inText_step text h
  cases net_cases moves with
  | connect | connectFails | act | endOfFile => exact text
  | accept waits at_ alive =>
    exact moved (.accept true) (accept_eq_some.mpr ⟨alive, at_, rfl⟩)
  | acceptNone at_ alive =>
    exact moved (.accept false) (accept_eq_some.mpr ⟨alive, at_, rfl⟩)
  | serve current sent at_ alive => exact moved _ (recv_eq_some.mpr ⟨alive, at_, rfl⟩)
  | hangUp current sent closed at_ alive => exact moved _ (recvEnd_eq_some.mpr ⟨alive, at_, rfl⟩)
  | reply current at_ listens alive => exact moved _ (reply_eq_some.mpr ⟨alive, at_, rfl⟩)
  | brokenPipe => exact text
  | inner own h => exact moved _ h

section Account

variable {past : List Entry} {w w' : World n}

theorem ledger_act (ledger : Ledger past w) {j : Nat} {c : Client}
    (h : (w.clients j).act = some c) :
    Ledger (past ++ (entry w (.act j)).toList) (w.setClient j c) := by
  have here : entry w (.act j) = (w.clients j).entry j := rfl
  have others (k : Nat) (apart : k ≠ j) : (w.setClient j c).clients k = w.clients k := by
    rw [World.setClient_clients, if_neg apart]
  have mine : (w.setClient j c).clients j = c := by rw [World.setClient_clients, if_pos rfl]
  rcases act_messages (j := j) h with ⟨cmd, sends, toServer, toClient⟩ |
    ⟨r, takes, toClient, toServer⟩ | ⟨silent, toServer, toClient⟩
  · rw [here, sends]
    refine ⟨ledger.text, ledger.engaged, fun k => ?_, fun k => ?_, fun k => ?_⟩
    · have before := ledger.commands k
      by_cases same : k = j
      · subst same
        simp_all [sentBy, servedTo]
      · simp_all [sentBy, servedTo, Ne.symm same]
    · have before := ledger.replies k
      by_cases same : k = j
      · subst same
        simp_all [answeredTo, receivedBy]
      · simp_all [answeredTo, receivedBy]
    · have same : underway (w.setClient j c) k = underway w k := rfl
      simpa [servedTo, answeredTo, same] using ledger.matched k
  · rw [here, takes]
    refine ⟨ledger.text, ledger.engaged, fun k => ?_, fun k => ?_, fun k => ?_⟩
    · have before := ledger.commands k
      by_cases same : k = j
      · subst same
        simp_all [sentBy, servedTo]
      · simp_all [sentBy, servedTo]
    · have before := ledger.replies k
      by_cases same : k = j
      · subst same
        simp_all [answeredTo, receivedBy]
      · simp_all [answeredTo, receivedBy, Ne.symm same]
    · have same : underway (w.setClient j c) k = underway w k := rfl
      simpa [servedTo, answeredTo, same] using ledger.matched k
  · exact ledger.silent (here.trans silent) ledger.text ledger.engaged
      (setClient_kept toServer toClient) fun _ => rfl

theorem underway_of_idle {k : Nat} (idle : busy w.server = []) : underway w k = [] := by
  simp [underway, idle]

theorem ledger_step {e : NetEvent n} (ledger : Ledger past w) (moves : netStep w e = some w') :
    Ledger (past ++ (entry w e).toList) w' := by
  have text := inText_net ledger.text moves
  have engaged := ledger.engaged
  cases net_cases moves with
  | @connect j away =>
    exact ledger.silent rfl text engaged (setClient_kept rfl rfl) fun _ => rfl
  | @connectFails j away =>
    exact ledger.silent rfl text engaged (setClient_kept rfl rfl) fun _ => rfl
  | @act j c h => exact ledger_act ledger h
  | @endOfFile j c left h =>
    obtain ⟨toServer, toClient⟩ := endOfFile_messages h
    exact ledger.silent rfl text engaged (setClient_kept toServer toClient) fun _ => rfl
  | @accept j waits at_ =>
    have idle : busy w.server = [] := by simp [busy, at_]
    refine ledger.silent rfl text rfl (setClient_kept rfl rfl) fun k => ?_
    rw [underway_of_idle idle]
    exact underway_of_idle rfl
  | acceptNone at_ =>
    have idle : busy w.server = [] := by simp [busy, at_]
    refine ledger.silent rfl text ?_ (fun _ => ⟨rfl, rfl⟩) fun k => ?_
    · simpa [Clients.engaged, at_] using engaged
    · rw [underway_of_idle idle]
      exact underway_of_idle rfl
  | @serve j cmd cmds current sent at_ =>
    have idle : busy w.server = [] := by simp [busy, at_]
    have taken : entry w .serve = some (.served j cmd) := by simp [entry, current, sent]
    rw [taken]
    refine ⟨text, by simp [Clients.engaged, World.setClient, current], fun k => ?_, fun k => ?_,
      fun k => ?_⟩
    · have before := ledger.commands k
      by_cases same : k = j
      · subst same
        simp_all [sentBy, servedTo, World.setClient_clients]
      · simp_all [sentBy, servedTo, World.setClient_clients, Ne.symm same]
    · have before := ledger.replies k
      by_cases same : k = j
      · subst same
        simpa [answeredTo, receivedBy, World.setClient_clients] using before
      · simpa [answeredTo, receivedBy, World.setClient_clients, same] using before
    · have before := ledger.matched k
      rw [underway_of_idle idle] at before
      by_cases same : k = j
      · subst same
        simp_all [servedTo, answeredTo, underway, busy, World.setClient]
      · simp_all [servedTo, answeredTo, underway, World.setClient, Ne.symm same]
  | @hangUp j current sent closed at_ =>
    have idle : busy w.server = [] := by simp [busy, at_]
    refine ledger.silent (by simp [entry, current, sent]) text rfl (fun _ => ⟨rfl, rfl⟩) fun k => ?_
    rw [underway_of_idle idle]
    exact underway_of_idle rfl
  | @brokenPipe j current at_ closed =>
    exact ledger.silent (by simp [entry, current, closed]) text engaged (fun _ => ⟨rfl, rfl⟩)
      fun _ => rfl
  | @reply j current at_ listens =>
    have gives : entry w .reply = some (.answered j w.server.res) := by
      simp [entry, current, listens]
    rw [gives]
    refine ⟨text, by simp [Clients.engaged, World.setClient, current], fun k => ?_, fun k => ?_,
      fun k => ?_⟩
    · have before := ledger.commands k
      by_cases same : k = j
      · subst same
        simpa [sentBy, servedTo, World.setClient_clients] using before
      · simpa [sentBy, servedTo, World.setClient_clients, same] using before
    · have before := ledger.replies k
      by_cases same : k = j
      · subst same
        simp_all [answeredTo, receivedBy, World.setClient_clients]
      · simp_all [answeredTo, receivedBy, World.setClient_clients, Ne.symm same]
    · have before := ledger.matched k
      by_cases same : k = j
      · subst same
        simp_all [servedTo, answeredTo, underway, busy, World.setClient]
      · have other : w.current ≠ some k := by simpa [current] using Ne.symm same
        simp_all [servedTo, answeredTo, underway, World.setClient, Ne.symm same]
  | @inner e s own h =>
    obtain ⟨engaged', busy'⟩ := engaged_inner ledger.text own h
    have account : Ledger past { w with server := s } :=
      ⟨text, engaged'.trans engaged, ledger.commands, ledger.replies, fun k => by
        rw [ledger.matched k, underway, underway, busy']⟩
    -- a state that is read is in nobody's account
    rw [entry]
    cases observation w.server e with
    | none => simpa using account
    | some v =>
      refine ⟨text, account.engaged, fun k => ?_, fun k => ?_, fun k => ?_⟩
      · simpa [sentBy, servedTo] using account.commands k
      · simpa [answeredTo, receivedBy] using account.replies k
      · simpa [servedTo, answeredTo] using account.matched k

end Account

end Steps

end MiniKvm.Source.Clients
