import MiniKvm.Source.ServerSteps

/-!
# The client processes and their sockets

mini_kvm_pause, mini_kvm_resume, mini_kvm_shutdown and mini_kvm_status, from their call of
mini_kvm_ipc_connect on, next to the server. A client is the list of what it still does on its
socket; a command or a reply in flight is delivered whole. The server serves one accepted
connection until its peer closes it, and the others wait in the backlog, where they can already
send.
-/
namespace MiniKvm.Source.Clients
open Source.Server

/-! ## Programs -/

inductive Action where
  | send (cmd : MiniKvmStatusCommand)
  | recv
  /-- `goto close_socket` when the state in the last reply is one of these. -/
  | closeIf (states : List VMState)
  deriving DecidableEq

def miniKvmIpcSendCmd (cmd : MiniKvmStatusCommand) : List Action := [.send cmd, .recv]

def miniKvmPause : List Action :=
  miniKvmIpcSendCmd { type := .showState } ++
    .closeIf [.paused, .shutdown] :: miniKvmIpcSendCmd { type := .pause }

def miniKvmResume : List Action :=
  miniKvmIpcSendCmd { type := .showState } ++
    .closeIf [.running, .shutdown] :: miniKvmIpcSendCmd { type := .resume }

def miniKvmShutdown : List Action := miniKvmIpcSendCmd { type := .shutdown }

/-- The fields of `MiniKvmStatusArgs` that status_build_command reads, and its getpid(). -/
structure MiniKvmStatusArgs where
  memRange : List Int64 := []
  vcpus : UInt64 := 0
  cmds : List CommandType
  pid : Int32 := 0

def memRangeDefaults : Vector Int64 4 := ⟨#[0, -1, 2, 16], rfl⟩

def statusBuildCommand (args : MiniKvmStatusArgs) (type : CommandType) : MiniKvmStatusCommand :=
  match type with
  | .showState => { type := type }
  | .showRegs => { type := type, vcpus := args.vcpus }
  | .dumpMem =>
    { type := type
      memRange := Vector.ofFn fun i => args.memRange.getD i memRangeDefaults[i]
      pid := args.pid }
  | _ => { type := .none }

def miniKvmStatus (args : MiniKvmStatusArgs) : List Action :=
  args.cmds.flatMap fun type => miniKvmIpcSendCmd (statusBuildCommand args type)

/-- The shipped clients. -/
inductive Program where
  | pause | resume | shutdown
  | status (args : MiniKvmStatusArgs)

def Program.actions : Program → List Action
  | .pause => miniKvmPause
  | .resume => miniKvmResume
  | .shutdown => miniKvmShutdown
  | .status args => miniKvmStatus args

/-! ## The world -/

/-- Where the socket of a client is. A client whose connect failed is `gone`. -/
inductive Link where
  | away | backlog | accepted | gone
  deriving DecidableEq, Repr

/-- A client process: what it has still to do, its `res`, and what is in flight on its socket. With
nothing left to do it has closed the socket. -/
structure Client where
  link : Link := .away
  prog : List Action
  res : Reply := {}
  toServer : List MiniKvmStatusCommand := []
  toClient : List Reply := []
  deriving DecidableEq

/-- `current` is the client behind `remote_sock`. -/
structure World (n : Nat) where
  server : State n
  clients : Nat → Client
  current : Option Nat

inductive NetEvent (n : Nat) where
  | connect (j : Nat)
  | connectFails (j : Nat)
  /-- Client `j` goes on. -/
  | act (j : Nat)
  /-- The recv of client `j` finds the server gone. -/
  | endOfFile (j : Nat)
  | accept (j : Nat)
  | acceptNone
  /-- The server's recv returns. -/
  | serve
  | reply
  /-- A step of the server away from its sockets. -/
  | inner (e : Event n)

/-- One action of a client; `none` while it blocks in recv. -/
def Client.act (c : Client) : Option Client :=
  match c.prog with
  | [] => none
  | .send cmd :: rest => some { c with toServer := c.toServer ++ [cmd], prog := rest }
  | .recv :: rest =>
    match c.toClient with
    | [] => none
    | r :: rs => some { c with res := r, toClient := rs, prog := rest }
  | .closeIf states :: rest => some { c with prog := if c.res.state ∈ states then [] else rest }

/-- recv returns 0 and leaves `res` alone; `recv(..) < -1` never holds, so the client goes on. -/
def Client.endOfFile (c : Client) : Option Client :=
  match c.prog, c.toClient with
  | .recv :: rest, [] => some { c with prog := rest }
  | _, _ => none

section Steps

variable {n : Nat}

def World.setClient (w : World n) (j : Nat) (c : Client) : World n :=
  { w with clients := Function.update w.clients j c }

/-- The events of the server on its sockets; the network has its own for these. -/
def onSocket : Event n → Bool
  | .accept _ | .recv _ | .reply | .brokenPipe => true
  | _ => false

def netStep (w : World n) : NetEvent n → Option (World n)
  | .connect j =>
    if (w.clients j).link = .away then
      some (w.setClient j { w.clients j with link := .backlog })
    else none
  | .connectFails j =>
    if (w.clients j).link = .away then
      some (w.setClient j { w.clients j with link := .gone, prog := [] })
    else none
  | .act j =>
    if (w.clients j).link = .backlog ∨ (w.clients j).link = .accepted then
      (w.clients j).act.map (w.setClient j)
    else none
  | .endOfFile j =>
    if w.server.main = .left then (w.clients j).endOfFile.map (w.setClient j) else none
  | .accept j =>
    if (w.clients j).link = .backlog then
      (step w.server (.accept true)).map fun s =>
        { w.setClient j { w.clients j with link := .accepted } with server := s, current := some j }
    else none
  | .acceptNone => (step w.server (.accept false)).map fun s => { w with server := s }
  | .serve =>
    match w.current with
    | none => none
    | some j =>
      match (w.clients j).toServer with
      | cmd :: cmds =>
        (step w.server (.recv (some cmd))).map fun s =>
          { w.setClient j { w.clients j with toServer := cmds } with server := s }
      | [] =>
        if (w.clients j).prog = [] then
          (step w.server (.recv none)).map fun s => { w with server := s, current := none }
        else none
  | .reply =>
    match w.current with
    | none => none
    | some j =>
      if (w.clients j).prog = [] then
        (step w.server .brokenPipe).map fun s => { w with server := s }
      else
        (step w.server .reply).map fun s =>
          { w.setClient j
              { w.clients j with toClient := (w.clients j).toClient ++ [w.server.res] } with
            server := s }
  | .inner e => if onSocket e then none else (step w.server e).map fun s => { w with server := s }

/-- The labels of the server. -/
def netLabel (w : World n) : NetEvent n → Option Label
  | .serve =>
    w.current.bind fun j => (w.clients j).toServer.head?.bind fun cmd => some (.began cmd.type)
  | .inner e => if onSocket e then none else label w.server e
  | _ => none

def network (n : Nat) : Lib.Lts.System (World n) (NetEvent n) Label := ⟨netStep, netLabel⟩

/-! ## Inversion -/

theorem World.setClient_clients (w : World n) (j k : Nat) (c : Client) :
    (w.setClient j c).clients k = if k = j then c else w.clients k := by
  simp only [setClient, Function.update_apply]

/-- What an event of the network does. -/
inductive NetCases (w : World n) : NetEvent n → World n → Prop where
  | connect {j : Nat} (away : (w.clients j).link = .away) :
    NetCases w (.connect j) (w.setClient j { w.clients j with link := .backlog })
  | connectFails {j : Nat} (away : (w.clients j).link = .away) :
    NetCases w (.connectFails j) (w.setClient j { w.clients j with link := .gone, prog := [] })
  | act {j : Nat} {c : Client} (h : (w.clients j).act = some c) :
    NetCases w (.act j) (w.setClient j c)
  | endOfFile {j : Nat} {c : Client} (left : w.server.main = .left)
    (h : (w.clients j).endOfFile = some c) : NetCases w (.endOfFile j) (w.setClient j c)
  | accept {j : Nat} (waits : (w.clients j).link = .backlog) (at_ : w.server.main = .accepting)
    (alive : w.server.killed = false) :
    NetCases w (.accept j)
      { w.setClient j { w.clients j with link := .accepted } with
        server := { w.server with main := .receiving }
        current := some j }
  | acceptNone (at_ : w.server.main = .accepting) (alive : w.server.killed = false) :
    NetCases w .acceptNone { w with server := { w.server with main := .sigTest } }
  | serve {j : Nat} {cmd : MiniKvmStatusCommand} {cmds : List MiniKvmStatusCommand}
    (current : w.current = some j) (sent : (w.clients j).toServer = cmd :: cmds)
    (at_ : w.server.main = .receiving) (alive : w.server.killed = false) :
    NetCases w .serve
      { w.setClient j { w.clients j with toServer := cmds } with
        server := { w.server with
          main := .exec (.command cmd) .success (miniKvmStatusHandleCommand cmd) } }
  | hangUp {j : Nat} (current : w.current = some j) (sent : (w.clients j).toServer = [])
    (closed : (w.clients j).prog = []) (at_ : w.server.main = .receiving)
    (alive : w.server.killed = false) :
    NetCases w .serve { w with server := { w.server with main := .sigTest }, current := none }
  | reply {j : Nat} (current : w.current = some j) (at_ : w.server.main = .replying)
    (listens : (w.clients j).prog ≠ []) (alive : w.server.killed = false) :
    NetCases w .reply
      { w.setClient j
          { w.clients j with toClient := (w.clients j).toClient ++ [w.server.res] } with
        server := { w.server with main := .receiving } }
  | brokenPipe {j : Nat} (current : w.current = some j) (at_ : w.server.main = .replying)
    (closed : (w.clients j).prog = []) (alive : w.server.killed = false) :
    NetCases w .reply { w with server := { w.server with killed := true } }
  | inner {e : Event n} {s : State n} (own : onSocket e = false) (h : step w.server e = some s) :
    NetCases w (.inner e) { w with server := s }

theorem net_cases {w w' : World n} {e : NetEvent n} (h : netStep w e = some w') :
    NetCases w e w' := by
  cases e with
  | connect j =>
    simp only [netStep] at h
    split at h
    · next away => cases h; exact .connect away
    · cases h
  | connectFails j =>
    simp only [netStep] at h
    split at h
    · next away => cases h; exact .connectFails away
    · cases h
  | act j =>
    simp only [netStep] at h
    split at h
    · obtain ⟨c, hc, rfl⟩ := Option.map_eq_some_iff.mp h
      exact .act hc
    · cases h
  | endOfFile j =>
    simp only [netStep] at h
    split at h
    · next left =>
      obtain ⟨c, hc, rfl⟩ := Option.map_eq_some_iff.mp h
      exact .endOfFile left hc
    · cases h
  | accept j =>
    simp only [netStep] at h
    split at h
    · next waits =>
      obtain ⟨s, hs, rfl⟩ := Option.map_eq_some_iff.mp h
      obtain ⟨alive, at_, rfl⟩ := accept_eq_some.mp hs
      exact .accept waits at_ alive
    · cases h
  | acceptNone =>
    obtain ⟨s, hs, rfl⟩ := Option.map_eq_some_iff.mp h
    obtain ⟨alive, at_, rfl⟩ := accept_eq_some.mp hs
    exact .acceptNone at_ alive
  | serve =>
    simp only [netStep] at h
    split at h
    · cases h
    · next j current =>
      split at h
      · next cmd cmds sent =>
        obtain ⟨s, hs, rfl⟩ := Option.map_eq_some_iff.mp h
        obtain ⟨alive, at_, rfl⟩ := recv_eq_some.mp hs
        exact .serve current sent at_ alive
      · next sent =>
        split at h
        · next closed =>
          obtain ⟨s, hs, rfl⟩ := Option.map_eq_some_iff.mp h
          obtain ⟨alive, at_, rfl⟩ := recvEnd_eq_some.mp hs
          exact .hangUp current sent closed at_ alive
        · cases h
  | reply =>
    simp only [netStep] at h
    split at h
    · cases h
    · next j current =>
      split at h
      · next closed =>
        obtain ⟨s, hs, rfl⟩ := Option.map_eq_some_iff.mp h
        obtain ⟨alive, at_, rfl⟩ := brokenPipe_eq_some.mp hs
        exact .brokenPipe current at_ closed alive
      · next listens =>
        obtain ⟨s, hs, rfl⟩ := Option.map_eq_some_iff.mp h
        obtain ⟨alive, at_, rfl⟩ := reply_eq_some.mp hs
        exact .reply current at_ listens alive
  | inner e =>
    simp only [netStep] at h
    split at h
    · cases h
    · next own =>
      obtain ⟨s, hs, rfl⟩ := Option.map_eq_some_iff.mp h
      exact .inner (by simpa using own) hs

/-! ## The start -/

/-- No client has connected yet, and the server is at its call of mini_kvm_start_vm. -/
def World.init (n : Nat) (programs : Nat → Program) : World n where
  server := Server.init n
  clients j := { prog := (programs j).actions }
  current := none

end Steps

end MiniKvm.Source.Clients
