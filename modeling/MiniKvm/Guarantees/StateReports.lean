import MiniKvm.Source.ClientTraces
import MiniKvm.Lib.Histories

/-!
# Is a reported state a real one?

SHOW_STATE copies `kvm->state` into a `res` that outlives the connection, while the vcpu threads may
store to `kvm->state`. Every state that a client receives in answer to SHOW_STATE was the state of the
VM at some moment after the client had sent that command.
-/
namespace MiniKvm.Guarantees.StateReports
open Source Source.Server Source.Clients Lib.Histories

variable {n : Nat}

/-! ## The property -/

/-- The `k`-th command of client `j` is the one that `header` names, and `v` was read after it was
sent. -/
def Seen (past : List Entry) (j k : Nat) (header : CommandType × UInt64) (v : VMState) : Prop :=
  ∃ a cmd b c, past = a ++ .sent j cmd :: (b ++ .observed v :: c) ∧ (sentBy j a).length = k ∧
    commandHeader cmd = header

/-- A client that receives a reply to SHOW_STATE is told of a state seen since it asked. -/
def Truthful (before : List Entry) : Entry → Prop
  | .received j r => r.cmdType = .showState →
    Seen before j (receivedBy j before).length (replyHeader r) r.state
  | _ => True

theorem Seen.append {past : List Entry} {j k : Nat} {header : CommandType × UInt64} {v : VMState}
    (seen : Seen past j k header v) (more : List Entry) : Seen (past ++ more) j k header v := by
  obtain ⟨a, cmd, b, c, rfl, count, named⟩ := seen
  exact ⟨a, cmd, b, c ++ more, by simp, count, named⟩

/-! ## What the server has read -/

/-- The state that is on its way into a reply, with the command that it answers. -/
def reading (s : State n) : Option ((CommandType × UInt64) × VMState) :=
  match s.main with
  | .exec (.command cmd) _ ops =>
    if cmd.type = .showState ∧ .readState ∉ ops then some (commandHeader cmd, s.res.state) else none
  | .replying =>
    if s.res.cmdType = .showState then some (replyHeader s.res, s.res.state) else none
  | _ => none

theorem showState_text {cmd : MiniKvmStatusCommand} (shows : cmd.type = .showState) {op : Op n}
    {rest : List (Op n)} (text : op :: rest <:+ (Task.command cmd).ops) :
    op = .lock ∧ rest = [.readState] ∨ op = .readState ∧ rest = [] := by
  simpa [Task.ops, miniKvmStatusHandleCommand, handlers, shows, statusHandleCmdState,
    List.suffix_cons_iff] using text

/-- Away from its sockets the server keeps what it has read, or has just read it. -/
theorem reading_inner {s t : State n} {e : Event n} (text : InText s) (own : onSocket e = false)
    (h : step s e = some t) :
    reading t = none ∨ reading t = reading s ∧ observation s e = none ∨
      ∃ cmd, reading t = some (commandHeader cmd, s.kvm.state) ∧
        observation s e = some s.kvm.state ∧ busy s = [commandHeader cmd] := by
  cases step_cases h with
  | @op _ task ret op rest _ at_ effect next event =>
    have here := text task _ ⟨ret, at_⟩
    have goes_ := Op.next_cases s task ret rest op
    cases task with
    | startVm | signalBranch =>
      refine .inl ?_
      rcases goes_ with ⟨goes, -⟩ | ⟨-, -, goes⟩ | ⟨-, -, goes⟩ <;> simp [reading, next, goes]
    | command cmd =>
      by_cases shows : cmd.type = .showState
      · rcases showState_text shows here with ⟨rfl, rfl⟩ | ⟨rfl, rfl⟩
        · exact .inl (by simp [reading, next, Op.next])
        · obtain rfl : e = .main := by simpa using event
          have stored : t.res.state = s.kvm.state := by rw [effect.res]
          exact .inr (.inr ⟨cmd, by simp [reading, next, Op.next, shows, stored],
            by simp [observation, at_], by simp [busy, at_]⟩)
      · refine .inl ?_
        rcases goes_ with ⟨goes, -⟩ | ⟨-, -, goes⟩ | ⟨-, -, goes⟩ <;>
          simp [reading, next, goes, shows]
  | @finish task ret at_ =>
    cases task with
    | startVm => by_cases started : ret = .success <;> exact .inl (by simp [reading, finish, started])
    | signalBranch => exact .inl (by simp [reading, finish])
    | command cmd =>
      refine .inr (.inl ⟨?_, by simp [observation, at_]⟩)
      by_cases shows : cmd.type = .showState <;>
        simp [reading, finish, at_, shows, commandHeader, replyHeader]
  | @createFails task ret i rest at_ =>
    cases startVm_of_pthreadCreate (text.mem ⟨_, at_⟩)
    exact .inl (by simp [reading])
  | @queryFails task ret op rest at_ query =>
    obtain ⟨cmd, rfl, kind⟩ := at_guarded (text _ _ ⟨ret, at_⟩) query
    refine .inl ?_
    rcases kind with kind | kind <;> simp [reading, kind]
  | accept _ at_ | recv _ at_ | recvEnd at_ | reply at_ => cases own
  | leave at_ | loop at_ | caught at_ | uncaught at_ => exact .inl (by simp [reading])
  | kills kill => exact .inr (.inl ⟨rfl, by cases kill <;> rfl⟩)
  | vcpu side =>
    have frame := side.frame
    refine .inr (.inl ⟨by simp only [reading, frame.main, frame.res], ?_⟩)
    cases side <;> rfl

/-! ## The invariant -/

/-- What has been read for a client, answered to it and received by it, was read after it asked. -/
structure Reported (past : List Entry) (w : World n) : Prop where
  ledger : Ledger past w
  read : ∀ j, w.current = some j → ∀ x ∈ reading w.server,
    Seen past j (answeredTo j past).length x.1 x.2
  answered : ∀ j k r, (answeredTo j past)[k]? = some r → r.cmdType = .showState →
    Seen past j k (replyHeader r) r.state
  received : AtEvery Truthful past

section Steps

variable {past : List Entry} {w w' : World n} {e : NetEvent n}

/-- A state that is read for a client comes after the command that asks for it. -/
theorem seen_of_observed (ledger : Ledger past w) {j : Nat} {cmd : MiniKvmStatusCommand}
    (current : w.current = some j) (busy_ : busy w.server = [commandHeader cmd]) (v : VMState) :
    Seen (past ++ [.observed v]) j (answeredTo j past).length (commandHeader cmd) v := by
  have matched := ledger.matched j
  rw [underway, if_pos current, busy_] at matched
  have header : ((servedTo j past).map commandHeader)[(answeredTo j past).length]? =
      some (commandHeader cmd) := by
    rw [matched]
    simp
  rw [List.getElem?_map, Option.map_eq_some_iff] at header
  obtain ⟨cmd', served, same⟩ := header
  have sent : (sentBy j past)[(answeredTo j past).length]? = some cmd' := by
    rw [ledger.commands j, List.getElem?_append_left (List.getElem?_eq_some_iff.mp served).1, served]
  obtain ⟨a, x, b, rfl, is, count⟩ := exists_split_of_filterMap sent
  have entry_ : x = .sent j cmd' := by
    cases x <;> simp at is
    obtain ⟨rfl, rfl⟩ := is
    rfl
  exact ⟨a, cmd', b, [], by simp [entry_], count, same⟩

/-- A step that answers nobody. -/
theorem Reported.quiet (before : Reported past w) (ledger : Ledger (past ++ (entry w e).toList) w')
    (noAnswer : ∀ j r, .answered j r ∉ entry w e)
    (noReceipt : ∀ j r, .received j r ∉ entry w e)
    (read : ∀ j, w'.current = some j → ∀ x ∈ reading w'.server,
      Seen (past ++ (entry w e).toList) j (answeredTo j past).length x.1 x.2) :
    Reported (past ++ (entry w e).toList) w' := by
  have same (j : Nat) : answeredTo j (past ++ (entry w e).toList) = answeredTo j past := by
    cases here : entry w e with
    | none => simp
    | some y =>
      cases y with
      | answered k r => exact absurd here (noAnswer k r)
      | _ => simp [answeredTo]
  refine ⟨ledger, fun j current x there => ?_, fun j k r at_ shows => ?_, ?_⟩
  · rw [same]
    exact read j current x there
  · rw [same] at at_
    exact (before.answered j k r at_ shows).append _
  · refine before.received.append fun y there => ?_
    cases y with
    | received k r => exact absurd there (noReceipt k r)
    | _ => trivial

theorem reported_step (before : Reported past w) (moves : netStep w e = some w') :
    Reported (past ++ (entry w e).toList) w' := by
  have ledger := ledger_step before.ledger moves
  cases net_cases moves with
  | connect away | connectFails away =>
    exact before.quiet ledger (by simp [entry]) (by simp [entry]) fun j current x there =>
      (before.read j current x there).append _
  | @act j c h =>
    have kept (k : Nat) (current : w.current = some k) (x : (CommandType × UInt64) × VMState)
        (there : x ∈ reading w.server) :
        Seen (past ++ (entry w (.act j)).toList) k (answeredTo k past).length x.1 x.2 :=
      (before.read k current x there).append _
    rcases act_messages (j := j) h with ⟨cmd, sends, -⟩ | ⟨r, takes, toClient, -⟩ | ⟨silent, -⟩
    · exact before.quiet ledger (by simp [entry, sends]) (by simp [entry, sends]) kept
    · have takes' : entry w (.act j) = some (.received j r) := takes
      rw [takes'] at ledger kept ⊢
      have same (k : Nat) : answeredTo k (past ++ [.received j r]) = answeredTo k past := by
        simp [answeredTo]
      refine ⟨ledger, fun k current x there => ?_, fun k i r' at_ shows => ?_, ?_⟩
      · exact (same k).symm ▸ kept k current x there
      · rw [Option.toList_some, same] at at_
        exact (before.answered k i r' at_ shows).append _
      · refine before.received.append fun y there => ?_
        cases there
        intro shows
        refine before.answered j _ r ?_ shows
        rw [before.ledger.replies j, toClient]
        simp
    · exact before.quiet ledger (by simp [entry, silent]) (by simp [entry, silent]) kept
  | endOfFile left h =>
    exact before.quiet ledger (by simp [entry]) (by simp [entry]) fun j current x there =>
      (before.read j current x there).append _
  | accept waits at_ =>
    exact before.quiet ledger (by simp [entry]) (by simp [entry]) (by simp [reading])
  | acceptNone at_ =>
    exact before.quiet ledger (by simp [entry]) (by simp [entry]) (by simp [reading])
  | @serve j cmd cmds current sent at_ =>
    refine before.quiet ledger (by simp [entry, current, sent]) (by simp [entry, current, sent]) ?_
    intro k _ x there
    by_cases shows : cmd.type = .showState <;>
      simp [reading, shows, miniKvmStatusHandleCommand, handlers, statusHandleCmdState] at there
  | hangUp current sent closed at_ =>
    exact before.quiet ledger (by simp [entry, current, sent]) (by simp [entry, current, sent])
      (by simp [reading])
  | @brokenPipe j current at_ closed =>
    refine before.quiet ledger (by simp [entry, current, closed]) (by simp [entry, current, closed])
      fun k current x there => (before.read k current x there).append _
  | @reply j current at_ listens =>
    have gives : entry w .reply = some (.answered j w.server.res) := by
      simp [entry, current, listens]
    rw [gives] at ledger ⊢
    refine ⟨ledger, by simp [reading, World.setClient], fun k i r there shows => ?_, ?_⟩
    · by_cases same : k = j
      · subst same
        have split : answeredTo k (past ++ [.answered k w.server.res]) =
            answeredTo k past ++ [w.server.res] := by simp [answeredTo]
        rw [Option.toList_some, split] at there
        rcases getElem?_snoc there with old | ⟨rfl, rfl⟩
        · exact (before.answered k i r old shows).append _
        · exact (before.read k current (replyHeader w.server.res, w.server.res.state)
            (by simp [reading, at_, shows])).append _
      · have kept : answeredTo k (past ++ [.answered j w.server.res]) = answeredTo k past := by
          simp [answeredTo, Ne.symm same]
        rw [Option.toList_some, kept] at there
        exact (before.answered k i r there shows).append _
    · exact before.received.append (by simp [Truthful])
  | @inner e s own h =>
    have silent : ∀ y ∈ entry w (.inner e), ∃ v, y = .observed v := by
      intro y there
      obtain ⟨v, -, rfl⟩ := Option.map_eq_some_iff.mp there
      exact ⟨v, rfl⟩
    refine before.quiet ledger (fun k r there => ?_) (fun k r there => ?_)
      fun j current x there => ?_
    · obtain ⟨v, is⟩ := silent _ there
      cases is
    · obtain ⟨v, is⟩ := silent _ there
      cases is
    · rcases reading_inner before.ledger.text own h with none_ | ⟨same, -⟩ | ⟨cmd, now, observes, busy_⟩
      · rw [none_] at there
        cases there
      · rw [same] at there
        exact (before.read j current x there).append _
      · rw [now] at there
        cases there
        rw [entry, observes]
        exact seen_of_observed before.ledger current busy_ _

end Steps

theorem reported_init (progs : Nat → List Action) : Reported [] (World.start n progs) where
  ledger := ledger_init progs
  read _ current := by cases current
  answered _ _ _ there := by cases there
  received := atEvery_nil _

/-- In every run, a reply to SHOW_STATE that a client receives answers the command in the same place
among those it has sent, and the state in it was read between the two. -/
theorem states_real (progs : Nat → List Action) (r : (exchange n).Run (World.start n progs)) :
    AtEvery Truthful ((exchange n).trace (World.start n progs) r.events) := by
  have kept := (exchange n).invariant_run Reported
    (fun past w e w' before _ moves => reported_step before moves) (reported_init progs)
    ((exchange n).steps_of_forall (fun _ _ _ => trivial) _ _ _) r.reaches
  exact kept.received

end MiniKvm.Guarantees.StateReports
