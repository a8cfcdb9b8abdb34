import MiniKvm.Guarantees.RealReplies
import MiniKvm.Source.CommandLine

/-!
# From the command line to the socket

When does a process send PAUSE, RESUME or SHUTDOWN to a VM, and to which? Only the command of that name
does; its options are all accepted, the last -n names a VM whose pid is alive, and no call on the socket
fails before. What the process returns tells of its options only.
-/
namespace MiniKvm.Guarantees.CommandSent
open Lib Lib.Getopt Source Source.ClientCalls Source.VmFiles Source.CommandLine

/-! ## The table of commands -/

section Table

variable {α : Type*}

/-- Where no key stands at the front of another, an entry is found exactly when its key stands at the
front of the word. -/
theorem find_iff {table : List (List Char × α)}
    (free : ∀ a ∈ table, ∀ b ∈ table, a.1 <+: b.1 → a = b) (word : List Char) (entry : List Char × α) :
    (table.find? fun e => e.1.isPrefixOf word) = some entry ↔ entry ∈ table ∧ entry.1 <+: word := by
  constructor
  · intro found
    have front := @List.find?_some _ (fun e : List Char × α => e.1.isPrefixOf word) _ _ found
    exact ⟨List.mem_of_find?_eq_some found, List.isPrefixOf_iff_prefix.mp front⟩
  · rintro ⟨member, front⟩
    have exists_ : ∃ e ∈ table, e.1.isPrefixOf word = true :=
      ⟨entry, member, List.isPrefixOf_iff_prefix.mpr front⟩
    obtain ⟨found, is⟩ := Option.isSome_iff_exists.mp (List.find?_isSome.mpr exists_)
    have before := @List.find?_some _ (fun e : List Char × α => e.1.isPrefixOf word) _ _ is
    have inTable := List.mem_of_find?_eq_some is
    rw [is, Option.some.injEq]
    rcases List.prefix_or_prefix_of_prefix front (List.isPrefixOf_iff_prefix.mp before) with
      longer | shorter
    · exact (free _ member _ inTable longer).symm
    · exact free _ inTable _ member shorter

end Table

/-- `name` in the table. -/
def wordOf : Subcommand → List Char
  | .pause => "pause".toList
  | .resume => "resume".toList
  | .run => "run".toList
  | .status => "status".toList
  | .shutdown => "shutdown".toList

theorem commands_eq : commands =
    [Subcommand.pause, .resume, .run, .status, .shutdown].map fun c => (wordOf c, c) := rfl

theorem mem_commands (entry : List Char × Subcommand) :
    entry ∈ commands ↔ entry = (wordOf entry.2, entry.2) := by
  rw [commands_eq, List.mem_map]
  constructor
  · rintro ⟨c, -, rfl⟩
    rfl
  · intro is
    refine ⟨entry.2, ?_, is.symm⟩
    cases entry.2 <;> decide

/-- No word stands at the front of another. -/
theorem wordOf_free {a b : Subcommand} (front : wordOf a <+: wordOf b) : a = b := by
  rw [← List.isPrefixOf_iff_prefix] at front
  cases a <;> cases b <;> first | rfl | exact absurd front (by decide)

/-- In any order of the table, the command is the one whose word stands at the front. -/
theorem findCommand_perm {table : List (List Char × Subcommand)} (perm : table.Perm commands)
    (word : List Char) (c : Subcommand) :
    findCommand table word = some c ↔ wordOf c <+: word := by
  have entries (e : List Char × Subcommand) (member : e ∈ table) : e = (wordOf e.2, e.2) :=
    (mem_commands e).mp (perm.mem_iff.mp member)
  have free : ∀ a ∈ table, ∀ b ∈ table, a.1 <+: b.1 → a = b := by
    intro a inA b inB front
    rw [entries a inA, entries b inB] at front ⊢
    rw [wordOf_free front]
  rw [findCommand, Option.map_eq_some_iff]
  constructor
  · rintro ⟨e, found, rfl⟩
    obtain ⟨member, front⟩ := (find_iff free word e).mp found
    rw [entries e member] at front
    exact front
  · intro front
    have member := perm.mem_iff.mpr ((mem_commands (wordOf c, c)).mpr rfl)
    exact ⟨_, (find_iff free word _).mpr ⟨member, front⟩, rfl⟩

/-- A word with a command at its front asks for no help. -/
theorem not_help {c : Subcommand} {word : List Char} (front : wordOf c <+: word) :
    ¬ ("-h".toList.isPrefixOf word = true ∨ "--help".toList.isPrefixOf word = true) := by
  obtain ⟨rest, rfl⟩ := front
  rintro (short | long)
  · cases c <;> exact absurd short Bool.false_ne_true
  · cases c <;> exact absurd long Bool.false_ne_true

/-! ## The options -/

/-- The options at which a parser stops. -/
def Refused (e : Event) : Prop := e = .bad ∨ ∃ optarg, e = .option 'h' optarg

theorem refused_option_iff {c : Char} {optarg : Option (List Char)} :
    Refused (.option c optarg) ↔ c = 'h' := by
  constructor
  · rintro (bad | ⟨_, help⟩)
    · cases bad
    · cases help
      rfl
  · rintro rfl
    exact .inr ⟨optarg, rfl⟩

/-- The name of an option -n. -/
def nameOf : Event → Option (List Char)
  | .option c optarg => if c = 'n' then some (StatusArgs.copiedName (optarg.getD [])) else none
  | .bad => none

/-- Options that are accepted leave the last name. -/
theorem handleAll_accepted {events : List Event} (accepted : ∀ e ∈ events, ¬ Refused e)
    (args : NameArgs) : CommandLine.handleAll args events =
      { args with name := (events.filterMap nameOf).getLast?.or args.name } := by
  induction events generalizing args with
  | nil => rfl
  | cons e rest ih =>
    have later := ih fun e member => accepted e (List.mem_cons_of_mem _ member)
    cases e with
    | bad => exact absurd (.inl rfl) (accepted .bad List.mem_cons_self)
    | option c optarg =>
      rw [CommandLine.handleAll]
      by_cases named : c = 'n'
      · have name : nameOf (.option c optarg) = some (StatusArgs.copiedName (optarg.getD [])) :=
          if_pos named
        rw [if_pos named, later, List.filterMap_cons_some name, List.getLast?_cons]
        cases (rest.filterMap nameOf).getLast? <;> rfl
      · have name : nameOf (.option c optarg) = none := if_neg named
        have plain : c ≠ 'h' := fun help =>
          accepted _ List.mem_cons_self (refused_option_iff.mpr help)
        rw [if_neg named, if_neg plain, later, List.filterMap_cons_none name]

theorem handleAll_refused {events : List Event} {e : Event} (member : e ∈ events)
    (refused : Refused e) (args : NameArgs) :
    (CommandLine.handleAll args events).ret = .argsFailed := by
  induction events generalizing args with
  | nil => cases member
  | cons first rest ih =>
    cases first with
    | bad => rfl
    | option c optarg =>
      rw [CommandLine.handleAll]
      by_cases named : c = 'n'
      · rw [if_pos named]
        rcases List.mem_cons.mp member with rfl | later
        · rw [refused_option_iff.mp refused] at named
          exact absurd named (by decide)
        · exact ih later _
      · rw [if_neg named]
        split
        · rfl
        · next plain =>
          rcases List.mem_cons.mp member with rfl | later
          · exact absurd (refused_option_iff.mp refused) plain
          · exact ih later _

/-! ## The socket -/

/-- The commands of the three programs. -/
def commandOf : CommandType → Subcommand
  | .pause => .pause
  | .resume => .resume
  | _ => .shutdown

def programOf : CommandType → Clients.Program
  | .pause => .pause
  | .resume => .resume
  | _ => .shutdown

/-- The states in which the command is not sent. -/
def closing : CommandType → List VMState
  | .pause => [.paused, .shutdown]
  | .resume => [.running, .shutdown]
  | _ => []

/-- `res` behind the first mini_kvm_ipc_send_cmd: what has arrived, and zeros. -/
def firstReply (peer : Peer) (j : Nat) : Option Octet :=
  match peer.send 0, peer.recv 0 with
  | .bytes count, .bytes most =>
    if count ≠ 0 ∧ j < min most resultSize then some ⟨0, j⟩ else none
  | _, _ => none

/-- No call fails up to the send of the command, and the state that is read does not hold it back. -/
structure Gets (peer : Peer) (type : CommandType) : Prop where
  socket : peer.socket ≠ none
  connect : peer.connect = true
  asks : type ≠ .shutdown → peer.send 0 ≠ .error ∧
    ∀ v ∈ closing type, stateOf peer (firstReply peer) ≠ some v
  sends : peer.send (if type = .shutdown then 0 else 1) ≠ .error

/-- The command has gone out. -/
def SentIn (answers : List Answer) (type : CommandType) : Prop :=
  ∃ answer ∈ answers, answer.cmd.type = type ∧ answer.sent ≠ .error

section Socket

variable {peer : Peer} {cmd : MiniKvmStatusCommand} {c : Client}

theorem sendCmd_error (opened : c.isOpen = true) (fails : peer.send c.commands = .error) :
    miniKvmIpcSendCmd peer cmd c = (-1, c.answered cmd .error (-1)) := by
  simp only [miniKvmIpcSendCmd, opened, if_true, fails]

/-- A send that does not fail, and what it leaves. -/
theorem sendCmd_sent (opened : c.isOpen = true) {count : Nat}
    (sent : peer.send c.commands = .bytes count) :
    (miniKvmIpcSendCmd peer cmd c).1 = 0 ∧ (miniKvmIpcSendCmd peer cmd c).2.isOpen = true ∧
      (miniKvmIpcSendCmd peer cmd c).2.commands = c.commands + 1 ∧
        ∃ answer, (miniKvmIpcSendCmd peer cmd c).2.answers = c.answers ++ [answer] ∧
          answer.cmd = cmd ∧ answer.sent = .bytes count := by
  unfold miniKvmIpcSendCmd
  simp only [opened, if_true, sent]
  cases received : peer.recv c.commands <;> by_cases none : count = 0 <;>
    simp [Client.answered, Client.received, none, opened, received]

theorem firstReply_eq {count : Nat} (sent : peer.send 0 = .bytes count) :
    (miniKvmIpcSendCmd peer cmd (.start true)).2.res = firstReply peer := by
  funext j
  simp only [miniKvmIpcSendCmd, firstReply, Client.start, sent, if_true]
  cases received : peer.recv 0 with
  | error => by_cases none : count = 0 <;> simp [Client.answered, none, received]
  | bytes most =>
    by_cases none : count = 0
    · simp [Client.answered, Client.received, none, received]
    · have flight : (⟨true, 0, 0, replyOctets 0, fun _ => .none, []⟩ : Client).inFlight =
        replyOctets 0 := by dsimp only
      have arrived := RealReplies.received_res flight most j
      simpa only [Client.answered, none, received, List.nil_append, if_false, ne_eq, not_false_eq_true,
        true_and] using arrived

/-- One call records one answer, to the command it is given. -/
theorem mem_answers_sendCmd {answer : Answer}
    (member : answer ∈ (miniKvmIpcSendCmd peer cmd c).2.answers) :
    answer ∈ c.answers ∨ answer.cmd = cmd := by
  obtain ⟨between, sent, ret, text, before, -⟩ := RealReplies.sendCmd_frame peer cmd c
  rw [text] at member
  rcases List.mem_append.mp member with earlier | last
  · exact .inl (before ▸ earlier)
  · rw [List.mem_singleton.mp last]
    exact .inr rfl

theorem connect_answers (peer : Peer) : (miniKvmIpcConnect peer).2.answers = [] := by
  unfold miniKvmIpcConnect
  split
  · rfl
  · split <;> rfl

/-- A program sends its own commands only. -/
theorem mem_answers_perform {ops : List Operation} {answer : Answer}
    (member : answer ∈ (perform peer ops c).answers) :
    answer ∈ c.answers ∨ .sendCmd answer.cmd ∈ ops := by
  induction ops generalizing c with
  | nil => exact .inl member
  | cons op rest ih =>
    cases op with
    | closeIf states =>
      rw [perform] at member
      split at member
      · exact .inl member
      · exact (ih member).imp_right (List.mem_cons_of_mem _)
    | sendCmd cmd =>
      have here (inside : answer ∈ (miniKvmIpcSendCmd peer cmd c).2.answers) :
          answer ∈ c.answers ∨ .sendCmd answer.cmd ∈ Operation.sendCmd cmd :: rest := by
        rcases mem_answers_sendCmd inside with earlier | own
        · exact .inl earlier
        · rw [own]
          exact .inr List.mem_cons_self
      simp only [perform] at member
      split at member
      · exact here member
      · rcases ih member with before | later
        · exact here before
        · exact .inr (List.mem_cons_of_mem _ later)

theorem answers_last (peer : Peer) (cmd : MiniKvmStatusCommand) (c : Client) :
    (perform peer [.sendCmd cmd] c).answers = (miniKvmIpcSendCmd peer cmd c).2.answers := by
  simp only [perform]
  split <;> rfl

theorem perform_sent (ret : (miniKvmIpcSendCmd peer cmd c).1 = 0) (rest : List Operation) :
    perform peer (.sendCmd cmd :: rest) c = perform peer rest (miniKvmIpcSendCmd peer cmd c).2 := by
  rw [perform]
  generalize miniKvmIpcSendCmd peer cmd c = r at ret ⊢
  obtain ⟨n, c'⟩ := r
  subst ret
  rfl

/-- The last command goes out when its send does not fail. -/
theorem last_sent_iff (opened : c.isOpen = true) {type : CommandType}
    (others : ∀ answer ∈ c.answers, answer.cmd.type ≠ type) :
    SentIn (perform peer [.sendCmd { type }] c).answers type ↔ peer.send c.commands ≠ .error := by
  rw [answers_last]
  cases sent : peer.send c.commands with
  | error =>
    rw [sendCmd_error opened sent]
    refine iff_of_false ?_ fun sends => sends rfl
    rintro ⟨answer, member, is, went⟩
    rcases List.mem_append.mp member with before | last
    · exact others answer before is
    · rw [List.mem_singleton.mp last] at went
      exact went rfl
  | bytes count =>
    obtain ⟨-, -, -, answer, answers, is, went⟩ := @sendCmd_sent peer { type } c opened _ sent
    refine iff_of_true ⟨answer, ?_, by rw [is], by simp [went]⟩ (by simp)
    rw [answers]
    exact List.mem_append_right _ List.mem_cons_self

/-- A command behind a question for the state goes out when that is not one of these. -/
theorem asking_sent_iff {type : CommandType} (other : type ≠ .showState) (states : List VMState) :
    SentIn (perform peer [.sendCmd { type := .showState }, .closeIf states, .sendCmd { type }]
        (.start true)).answers type ↔
      peer.send 0 ≠ .error ∧ (∀ v ∈ states, stateOf peer (firstReply peer) ≠ some v) ∧
        peer.send 1 ≠ .error := by
  cases sent : peer.send 0 with
  | error =>
    refine iff_of_false ?_ fun both => both.1 rfl
    have failed := @sendCmd_error peer { type := .showState } (.start true) rfl sent
    rintro ⟨answer, member, -, went⟩
    rw [perform, failed] at member
    rw [List.mem_singleton.mp member] at went
    exact went rfl
  | bytes count =>
    obtain ⟨ret, opened, commands, answer, answers, is, -⟩ :=
      @sendCmd_sent peer { type := .showState } (.start true) rfl _ sent
    have state := @firstReply_eq peer { type := .showState } _ sent
    have before : ∀ a ∈ (miniKvmIpcSendCmd peer { type := .showState } (.start true)).2.answers,
        a.cmd.type ≠ type := by
      intro a member same
      rw [answers] at member
      rw [List.mem_singleton.mp member, is] at same
      exact other same.symm
    have goesOn := perform_sent ret [.closeIf states, .sendCmd { type }]
    have last := @last_sent_iff peer _ opened type before
    rw [commands] at last
    rw [goesOn, perform, state]
    split
    · next holds =>
      refine iff_of_false ?_ fun both => ?_
      · rintro ⟨a, member, same, -⟩
        exact before a member same
      · obtain ⟨v, member, is⟩ := holds
        exact both.2.1 v member is
    · next goes =>
      have none : ∀ v ∈ states, stateOf peer (firstReply peer) ≠ some v := fun v member is =>
        goes ⟨v, member, is⟩
      rw [last]
      exact ⟨fun sends => ⟨by simp, none, sends⟩, fun both => both.2.2⟩

/-- On a socket that is closed nothing goes out. -/
theorem closed_not_sent (closed : c.isOpen = false) (none : c.answers = []) (type : CommandType)
    (cmd : MiniKvmStatusCommand) (rest : List Operation) :
    ¬ SentIn (perform peer (.sendCmd cmd :: rest) c).answers type := by
  have fails : miniKvmIpcSendCmd peer cmd c = (-1, c.answered cmd .error (-1)) := by
    simp only [miniKvmIpcSendCmd, closed, Bool.false_eq_true, if_false]
  rintro ⟨answer, member, -, went⟩
  rw [perform, fails] at member
  have last : answer ∈ c.answers ++ [⟨c.commands, cmd, .error, -1, c.res⟩] := member
  rw [none, List.nil_append] at last
  rw [List.mem_singleton.mp last] at went
  exact went rfl

/-- The subcommand of a connected socket. -/
theorem operations_sent_iff {type : CommandType} (changes : type.Changes) :
    SentIn (perform peer (operations (programOf type)) (.start true)).answers type ↔
      (type ≠ .shutdown → peer.send 0 ≠ .error ∧
        ∀ v ∈ closing type, stateOf peer (firstReply peer) ≠ some v) ∧
      peer.send (if type = .shutdown then 0 else 1) ≠ .error := by
  have asking (type : CommandType) (other : type ≠ .showState) :=
    @asking_sent_iff peer type other (closing type)
  rcases changes with rfl | rfl | rfl
  · refine (asking .pause (by decide)).trans ?_
    simp [and_assoc]
  · refine (asking .resume (by decide)).trans ?_
    simp [and_assoc]
  · have alone := @last_sent_iff peer (.start true) rfl .shutdown (by simp [Client.start])
    refine alone.trans ?_
    simp [Client.start]

theorem subcommand_sent_iff {type : CommandType} (changes : type.Changes) :
    SentIn (subcommand peer (programOf type)).answers type ↔ Gets peer type := by
  have first : ∃ cmd rest, operations (programOf type) = .sendCmd cmd :: rest := by
    rcases changes with rfl | rfl | rfl <;> exact ⟨_, _, rfl⟩
  cases socket : peer.socket with
  | none =>
    have never : subcommand peer (programOf type) = .start false := by
      simp [subcommand, miniKvmIpcConnect, socket]
    refine iff_of_false ?_ fun gets => gets.socket socket
    rintro ⟨answer, member, -⟩
    rw [never] at member
    cases member
  | some fd =>
    have nonneg : ¬ (fd : Int) < 0 := by omega
    cases connect : peer.connect with
    | false =>
      obtain ⟨cmd, rest, ops⟩ := first
      have closed : subcommand peer (programOf type) =
          perform peer (.sendCmd cmd :: rest) (Client.start true).close := by
        simp [subcommand, miniKvmIpcConnect, socket, connect, nonneg, ops]
      rw [closed]
      refine iff_of_false (closed_not_sent rfl rfl type cmd rest) fun gets => ?_
      exact absurd (connect.symm.trans gets.connect) Bool.false_ne_true
    | true =>
      have opened : subcommand peer (programOf type) =
          perform peer (operations (programOf type)) (.start true) := by
        simp [subcommand, miniKvmIpcConnect, socket, connect, nonneg]
      rw [opened, operations_sent_iff changes]
      exact ⟨fun both => ⟨by simp [socket], connect, both.1, both.2⟩,
        fun gets => ⟨gets.asks, gets.sends⟩⟩

end Socket

/-! ## The processes -/

/-- The pidfile of the VM holds the pid of a process. -/
def Alive (w : World) (name : List Char) : Prop :=
  ∃ content, w.dirs name = .present (some content) ∧ content ≠ [] ∧
    w.kill (readInt (-1) content) = true

theorem alive_iff (w : World) (name : List Char) :
    Alive w name ↔ ¬ miniKvmCheckVm w.kill (w.dirs name) < 0 := by
  unfold Alive
  cases w.dirs name with
  | missing => simp [miniKvmCheckVm]
  | present pidfile =>
    cases pidfile with
    | none => simp [miniKvmCheckVm]
    | some content =>
      have empty : min content.length 4 ≤ 0 ↔ content = [] := by
        rw [← List.length_eq_zero_iff]
        omega
      have success : MiniKVMError.success.code = 0 := rfl
      by_cases alive : w.kill (readInt (-1) content) = true <;> by_cases none : content = [] <;>
        simp [miniKvmCheckVm, success, empty, alive, none]

/-- The options are accepted, the last -n is of a VM that is alive, and the command gets to it. -/
structure Asks (w : World) (options : List (List Char)) (type : CommandType) (name : List Char) :
    Prop where
  accepted : ∀ e ∈ getoptLong optsDef options, ¬ Refused e
  last : ((getoptLong optsDef options).filterMap nameOf).getLast? = some name
  alive : Alive w name
  gets : Gets w.peer type

/-- A process sends a command to the VM of this address. -/
def SendsTo (exit : Option Exit) (type : CommandType) (address : List Char) : Prop :=
  ∃ e, exit = some e ∧ e.address = some address ∧ SentIn e.answers type

theorem early_sends_nothing (e : MiniKVMError) (type : CommandType) (address : List Char) :
    ¬ SendsTo (some (.early e)) type address := by
  rintro ⟨exit, is, asked, -⟩
  cases is
  cases asked

theorem clientCommand_sends_iff {w : World} {options : List (List Char)} {type : CommandType}
    (changes : type.Changes) (address : List Char) :
    SendsTo (some (clientCommand w (programOf type)
        (CommandLine.handleAll ⟨none, .success⟩ (getoptLong optsDef options)))) type address ↔
      ∃ name, Asks w options type name ∧ address = RunStages.ipcConnectPath name := by
  by_cases accepted : ∀ e ∈ getoptLong optsDef options, ¬ Refused e
  · rw [handleAll_accepted accepted, Option.or_none, clientCommand, if_neg (not_not_intro rfl)]
    cases last : ((getoptLong optsDef options).filterMap nameOf).getLast? with
    | none =>
      refine iff_of_false (early_sends_nothing _ type address) ?_
      rintro ⟨name, asks, -⟩
      exact Option.some_ne_none _ (asks.last.symm.trans last)
    | some name =>
      have sole {name' : List Char} (asks : Asks w options type name') : name' = name :=
        Option.some.inj (asks.last.symm.trans last)
      dsimp only
      split
      · next dead =>
        refine iff_of_false (early_sends_nothing _ type address) ?_
        rintro ⟨name', asks, -⟩
        obtain rfl := sole asks
        exact (alive_iff w name').mp asks.alive dead
      · next alive =>
        constructor
        · rintro ⟨exit, is, asked, sent⟩
          cases is
          exact ⟨name, ⟨accepted, last, (alive_iff w name).mpr alive,
            (subcommand_sent_iff changes).mp sent⟩, (Option.some.inj asked).symm⟩
        · rintro ⟨name', asks, rfl⟩
          obtain rfl := sole asks
          exact ⟨_, rfl, rfl, (subcommand_sent_iff changes).mpr asks.gets⟩
  · refine iff_of_false ?_ fun ⟨_, asks, _⟩ => accepted asks.accepted
    have ⟨e, member, refused⟩ : ∃ e ∈ getoptLong optsDef options, Refused e := by
      simpa only [not_forall, not_not, exists_prop] using accepted
    have failed := handleAll_refused member refused ⟨none, .success⟩
    rw [clientCommand, failed, if_pos (by decide)]
    exact early_sends_nothing _ type address

/-- A program returns MINI_KVM_SUCCESS when its options are accepted, whatever comes of its command. -/
theorem clientCommand_success_iff (w : World) (program : Clients.Program) (events : List Event) :
    (clientCommand w program (CommandLine.handleAll ⟨none, .success⟩ events)).ret =
      MiniKVMError.success.code ↔ ∀ e ∈ events, ¬ Refused e := by
  have returns (args : NameArgs) : (clientCommand w program args).ret = args.ret.code := by
    unfold clientCommand
    split
    · rfl
    · next accepted =>
      rw [not_not.mp accepted]
      split
      · rfl
      · split <;> rfl
  rw [returns]
  constructor
  · intro success e member refused
    rw [handleAll_refused member refused] at success
    exact absurd success (by decide)
  · intro accepted
    rw [handleAll_accepted accepted]

/-- The commands of mini_kvm_status are queries. -/
theorem statusBuildCommand_query {p : StatusArgs.Parsing} {i : Nat} {pid : Int32}
    {built : StatusArgs.Built} (builds : StatusArgs.statusBuildCommand p i pid = some built) :
    ¬ built.cmd.type.Changes := by
  unfold StatusArgs.statusBuildCommand at builds
  split at builds
  · cases builds
    exact (by decide : ¬ CommandType.showState.Changes)
  · cases builds
    exact (by decide : ¬ CommandType.showRegs.Changes)
  · obtain ⟨list, -, rfl⟩ := Option.map_eq_some_iff.mp builds
    exact (by decide : ¬ CommandType.dumpMem.Changes)
  · cases builds
    exact (by decide : ¬ CommandType.none.Changes)

theorem sendCommands_queries {w : World} {p : StatusArgs.Parsing} {left i : Nat} {c : Client}
    {sent : MiniKVMError × Client} (sends : sendCommands w p left i c = some sent)
    (before : ∀ answer ∈ c.answers, ¬ answer.cmd.type.Changes) :
    ∀ answer ∈ sent.2.answers, ¬ answer.cmd.type.Changes := by
  induction left generalizing i c with
  | zero =>
    cases sends
    exact before
  | succ left ih =>
    rw [sendCommands] at sends
    split at sends
    · cases sends
    · next built builds =>
      split at sends
      · cases sends
      · have here : ∀ answer ∈ (miniKvmIpcSendCmd w.peer built.cmd c).2.answers,
            ¬ answer.cmd.type.Changes := by
          intro answer member
          rcases mem_answers_sendCmd member with earlier | own
          · exact before answer earlier
          · rw [own]
            exact statusBuildCommand_query builds
        dsimp only at sends
        split at sends
        · cases sends
          exact here
        · exact ih sends here

theorem mem_answers_subcommand {peer : Peer} {type : CommandType} (changes : type.Changes)
    {answer : Answer} (member : answer ∈ (subcommand peer (programOf type)).answers) :
    answer.cmd.type = .showState ∨ answer.cmd.type = type := by
  have fresh := connect_answers peer
  unfold subcommand at member
  generalize miniKvmIpcConnect peer = r at member fresh
  obtain ⟨sock, c⟩ := r
  dsimp only at member fresh
  split at member
  · rw [fresh] at member
    cases member
  · rcases mem_answers_perform member with before | own
    · rw [fresh] at before
      cases before
    · rcases changes with rfl | rfl | rfl <;>
        simp only [programOf, operations, List.mem_cons, List.not_mem_nil, Operation.sendCmd.injEq,
          reduceCtorEq, or_false, false_or] at own
      · exact own.imp (congrArg _) (congrArg _)
      · exact own.imp (congrArg _) (congrArg _)
      · exact .inr (congrArg _ own)

/-- A program sends its own command, and no other. -/
theorem client_sends_iff {w : World} {options : List (List Char)} {type own : CommandType}
    (changes : type.Changes) (owns : own.Changes) (address : List Char) :
    SendsTo (some (clientCommand w (programOf own)
        (CommandLine.handleAll ⟨none, .success⟩ (getoptLong optsDef options)))) type address ↔
      own = type ∧ ∃ name, Asks w options type name ∧ address = RunStages.ipcConnectPath name := by
  by_cases same : own = type
  · subst same
    rw [clientCommand_sends_iff changes]
    simp
  · refine iff_of_false ?_ fun both => same both.1
    rintro ⟨exit, is, asked, answer, member, is_type, -⟩
    cases is
    have sent : answer ∈ (subcommand w.peer (programOf own)).answers := by
      unfold clientCommand at member
      split at member
      · cases member
      · split at member
        · cases member
        · split at member
          · cases member
          · exact member
    rcases mem_answers_subcommand owns sent with query | other
    · rw [← is_type, query] at changes
      exact absurd changes (by decide)
    · exact same (other.symm.trans is_type)

theorem run_sends_nothing (w : World) (argv : List (List Char)) (type : CommandType)
    (address : List Char) : ¬ SendsTo (miniKvmRun w argv) type address := by
  rintro ⟨exit, is, asked, -⟩
  unfold miniKvmRun at is
  split at is
  · cases is
  · split at is
    · cases is
      cases asked
    · cases is

theorem status_sends_queries (fuel : Nat) (w : World) (argv : List (List Char)) {type : CommandType}
    (changes : type.Changes) (address : List Char) :
    ¬ SendsTo (CommandLine.miniKvmStatus fuel w argv) type address := by
  rintro ⟨exit, is, asked, answer, member, is_type, -⟩
  have fresh : ∀ answer ∈ (miniKvmIpcConnect w.peer).2.answers, ¬ answer.cmd.type.Changes := by
    simp only [connect_answers, List.not_mem_nil, false_implies, implies_true]
  unfold CommandLine.miniKvmStatus at is
  dsimp only at is
  generalize miniKvmIpcConnect w.peer = r at is fresh
  obtain ⟨sock, c⟩ := r
  split at is
  · cases is
  · split at is
    · cases is
      cases asked
    · split at is
      · cases is
        cases asked
      · split at is
        · cases is
          cases asked
        · dsimp only at is
          split at is
          · cases is
            exact fresh answer member (is_type ▸ changes)
          · obtain ⟨sent, sends, rfl⟩ := Option.map_eq_some_iff.mp is
            exact sendCommands_queries sends fresh answer member (is_type ▸ changes)

theorem process_sends_iff {fuel : Nat} {w : World} {word : List Char} {options : List (List Char)}
    {type : CommandType} (changes : type.Changes) (c : Subcommand) (address : List Char) :
    SendsTo (c.process fuel w (word :: options)) type address ↔
      c = commandOf type ∧
        ∃ name, Asks w options type name ∧ address = RunStages.ipcConnectPath name := by
  have own {own : CommandType} (owns : own.Changes) : own = type ↔ commandOf own = commandOf type := by
    rcases owns with rfl | rfl | rfl <;> rcases changes with rfl | rfl | rfl <;> decide
  cases c with
  | pause =>
    refine (client_sends_iff changes (.inl rfl) address).trans ?_
    rw [own (.inl rfl)]
    rfl
  | resume =>
    refine (client_sends_iff changes (.inr (.inl rfl)) address).trans ?_
    rw [own (.inr (.inl rfl))]
    rfl
  | shutdown =>
    refine (client_sends_iff changes (.inr (.inr rfl)) address).trans ?_
    rw [own (.inr (.inr rfl))]
    rfl
  | run =>
    refine iff_of_false (run_sends_nothing w _ type address) ?_
    rintro ⟨is, -⟩
    rcases changes with rfl | rfl | rfl <;> cases is
  | status =>
    refine iff_of_false (status_sends_queries fuel w _ changes address) ?_
    rintro ⟨is, -⟩
    rcases changes with rfl | rfl | rfl <;> cases is

/-- A process sends PAUSE, RESUME or SHUTDOWN to the VM of an address exactly when its first argument
begins with the name of that command, and its other arguments and the socket allow it. -/
theorem command_sent_iff (fuel : Nat) (w : World) (argv : List (List Char)) {type : CommandType}
    (changes : type.Changes) (address : List Char) :
    SendsTo (main fuel w argv) type address ↔
      ∃ program word options name, argv = program :: word :: options ∧
        wordOf (commandOf type) <+: word ∧ Asks w options type name ∧
          address = RunStages.ipcConnectPath name := by
  have early : ¬ SendsTo (some (.early .success)) type address := early_sends_nothing _ type address
  match argv with
  | [] => exact iff_of_false early (by simp)
  | [_] => exact iff_of_false early (by simp)
  | program :: word :: options =>
    have found (c : Subcommand) := findCommand_perm (.refl commands) word c
    rw [main]
    split
    · next help =>
      refine iff_of_false early ?_
      rintro ⟨_, _, _, _, is, front, -⟩
      cases is
      exact not_help front help
    · rw [handleCommand, List.headD_cons]
      cases command : findCommand commands word with
      | none =>
        refine iff_of_false (early_sends_nothing _ type address) ?_
        rintro ⟨_, _, _, _, is, front, -⟩
        cases is
        exact Option.some_ne_none _ (((found _).mpr front).symm.trans command)
      | some c =>
        refine (process_sends_iff changes c address).trans ?_
        constructor
        · rintro ⟨rfl, name, asks, is⟩
          exact ⟨program, word, options, name, rfl, (found _).mp command, asks, is⟩
        · rintro ⟨_, _, _, name, is, front, asks, address_eq⟩
          cases is
          have same := ((found _).mpr front).symm.trans command
          exact ⟨(Option.some.inj same).symm, name, asks, address_eq⟩

/-- One VM, which runs, and a socket on which all goes well. -/
def oneVm : World where
  dirs := fun name => if name = "vm".toList then .present (some [7, 0, 0, 0]) else .missing
  kill := fun pid => pid = 7
  peer :=
    { socket := some 3
      connect := true
      send := fun _ => .bytes commandSize
      recv := fun _ => .bytes resultSize
      reply := fun _ j => if j = stateOffset then 1 else 0 }
  errno := 0
  pid := 9
  files := fun _ => none
  run :=
    { parse := 0
      calloc := false
      intel := false
      setup := fun _ => .of 0
      vcpu := fun _ => ⟨true, .of 0x1000, true, .success⟩
      configurePaging := .success
      loadKernel := .success
      fs := ⟨true, true, false, false, false, true⟩
      socket := ⟨true, true, true⟩
      start := .success
      first := .running
      rounds := [] }

/-- The last -n counts, and "pause" may go on. -/
theorem paused_vm_sent :
    SendsTo (main 0 oneVm ["mini_kvm".toList, "pausexyz".toList, "-nother".toList, "--na=vm".toList])
      .pause (RunStages.ipcConnectPath "vm".toList) :=
  (command_sent_iff 0 oneVm _ (.inl rfl) _).mpr
    ⟨_, _, _, "vm".toList, rfl, by decide,
      { accepted := by
          have options : getoptLong optsDef ["-nother".toList, "--na=vm".toList] =
              [.option 'n' (some "other".toList), .option 'n' (some "vm".toList)] := by decide
          rw [options]
          simp [Refused]
        last := by decide
        alive := ⟨[7, 0, 0, 0], by decide, by decide, by decide⟩
        gets :=
          { socket := by decide
            connect := rfl
            asks := fun _ => ⟨by decide, by decide⟩
            sends := by decide } }, rfl⟩

end MiniKvm.Guarantees.CommandSent
