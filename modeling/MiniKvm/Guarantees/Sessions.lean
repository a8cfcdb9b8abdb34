import MiniKvm.Lib.Simulation
import MiniKvm.Source.ClientTraces

/-!
# What order are commands handled in?

run_main_loop is meant to be a desk with one clerk: it takes one client after another, and from each
one command after another, with the answer before the next. The desk is stated here by itself; the
server with its clients, its vcpu threads and the messages in flight refines it.
-/
namespace MiniKvm.Guarantees.Sessions
open Source Source.Server Source.Clients Lib.Lts

/-! ## The desk -/

structure Desk where
  /-- Whoever has come to the desk, the last one last. -/
  served : List Nat
  current : Option Nat
  /-- What is to be answered. -/
  asked : Option (CommandType × UInt64)
  deriving DecidableEq

def Desk.opened : Desk := ⟨[], none, none⟩

inductive DeskEvent where
  | accept (j : Nat)
  | take (cmd : MiniKvmStatusCommand)
  | answer (r : Reply)
  | close

/-- Nobody comes twice, and nobody goes with a command unanswered. -/
def Desk.step (d : Desk) : DeskEvent → Option Desk
  | .accept j =>
    if d.current = none ∧ j ∉ d.served then
      some { d with served := d.served ++ [j], current := some j }
    else none
  | .take cmd =>
    if d.current ≠ none ∧ d.asked = none then some { d with asked := some (commandHeader cmd) }
    else none
  | .answer r =>
    if d.current ≠ none ∧ d.asked = some (replyHeader r) then some { d with asked := none } else none
  | .close => if d.current ≠ none ∧ d.asked = none then some { d with current := none } else none

def Desk.label (d : Desk) : DeskEvent → Option Entry
  | .take cmd => d.current.map (.served · cmd)
  | .answer r => d.current.map (.answered · r)
  | _ => none

def desk : System Desk DeskEvent Entry := ⟨Desk.step, Desk.label⟩

/-! ## What a desk shows -/

abbrev Session := Nat × List (MiniKvmStatusCommand × Reply)

def Session.entries (s : Session) : List Entry :=
  s.2.flatMap fun p => [.served s.1 p.1, .answered s.1 p.2]

/-- Whole sessions, each of another client, and then at most a command that the last of them waits
for. -/
structure Serially (past : List Entry) (sessions : List Session)
    (waits : Option (Nat × MiniKvmStatusCommand)) : Prop where
  entries : past = sessions.flatMap Session.entries ++ (waits.map fun p => .served p.1 p.2).toList
  distinct : (sessions.map Prod.fst).Nodup
  answers : ∀ s ∈ sessions, ∀ p ∈ s.2, commandHeader p.1 = replyHeader p.2
  last : ∀ p ∈ waits, (sessions.map Prod.fst).getLast? = some p.1

/-- The desk and what it has shown. -/
structure Shown (past : List Entry) (d : Desk) (sessions : List Session)
    (waits : Option (Nat × MiniKvmStatusCommand)) : Prop extends Serially past sessions waits where
  served : sessions.map Prod.fst = d.served
  current : ∀ j, d.current = some j → d.served.getLast? = some j
  asked : d.asked = waits.map fun p => commandHeader p.2
  attended : ∀ p ∈ waits, d.current = some p.1

theorem shown_step {past : List Entry} {d d' : Desk} {e : DeskEvent}
    (shown : ∃ sessions waits, Shown past d sessions waits) (moves : d.step e = some d') :
    ∃ sessions waits, Shown (past ++ (d.label e).toList) d' sessions waits := by
  obtain ⟨sessions, waits, shown⟩ := shown
  have entries := shown.entries
  cases e with
  | accept j =>
    simp only [Desk.step] at moves
    split at moves
    · next free =>
      obtain ⟨nobody, new⟩ := free
      cases moves
      have idle : waits = none := by
        cases waits with
        | none => rfl
        | some p => simp [shown.attended p rfl] at nobody
      subst idle
      have names : (sessions ++ [(j, [])]).map Prod.fst = d.served ++ [j] := by simp [shown.served]
      refine ⟨sessions ++ [(j, [])], none, ⟨?_, ?_, fun s there p => ?_, nofun⟩, names, ?_,
        shown.asked, nofun⟩
      · simpa [Desk.label, Session.entries] using entries
      · have distinct := shown.distinct
        rw [shown.served] at distinct
        rw [names]
        exact distinct.append (List.nodup_singleton j) (by simpa using new)
      · rcases List.mem_append.mp there with old | last
        · exact shown.answers s old p
        · obtain rfl := List.mem_singleton.mp last
          nofun
      · rintro k ⟨⟩
        simp
    · cases moves
  | take cmd =>
    simp only [Desk.step] at moves
    split at moves
    · next ready =>
      obtain ⟨someone, idle⟩ := ready
      cases moves
      obtain ⟨j, current⟩ := Option.ne_none_iff_exists'.mp someone
      have none_ : waits = none := by simpa [shown.asked] using idle
      subst none_
      refine ⟨sessions, some (j, cmd), ⟨?_, shown.distinct, shown.answers, ?_⟩, shown.served,
        shown.current, rfl, ?_⟩
      · simpa [Desk.label, current] using entries
      · rintro p ⟨⟩
        rw [shown.served]
        exact shown.current j current
      · rintro p ⟨⟩
        exact current
    · cases moves
  | answer r =>
    simp only [Desk.step] at moves
    split at moves
    · next ready =>
      obtain ⟨someone, header⟩ := ready
      cases moves
      rw [shown.asked, Option.map_eq_some_iff] at header
      obtain ⟨⟨j, cmd⟩, rfl, header⟩ := header
      have current := shown.attended _ rfl
      -- the answer goes to the last session
      have last := shown.last _ rfl
      obtain ⟨front, ⟨k, done⟩, rfl⟩ : ∃ front s, sessions = front ++ [s] := by
        rcases List.eq_nil_or_concat sessions with rfl | ⟨front, s, rfl⟩
        · simp at last
        · exact ⟨front, s, List.concat_eq_append⟩
      obtain rfl : k = j := by simpa using last
      have names : (front ++ [(k, done ++ [(cmd, r)])]).map Prod.fst =
          (front ++ [(k, done)]).map Prod.fst := by simp
      refine ⟨front ++ [(k, done ++ [(cmd, r)])], none,
        ⟨?_, names ▸ shown.distinct, fun s there p inside => ?_, nofun⟩, names.trans shown.served,
        shown.current, rfl, nofun⟩
      · rw [entries]
        simp [Desk.label, current, Session.entries]
      · rcases List.mem_append.mp there with old | new
        · exact shown.answers s (List.mem_append_left _ old) p inside
        · obtain rfl := List.mem_singleton.mp new
          rcases List.mem_append.mp inside with before | now
          · exact shown.answers (k, done) (by simp) p before
          · obtain rfl := List.mem_singleton.mp now
            exact header
    · cases moves
  | close =>
    simp only [Desk.step] at moves
    split at moves
    · next ready =>
      obtain ⟨-, idle⟩ := ready
      cases moves
      have none_ : waits = none := by simpa [shown.asked] using idle
      subst none_
      exact ⟨sessions, none, ⟨by simpa [Desk.label] using entries, shown.distinct, shown.answers,
        nofun⟩, shown.served, nofun, shown.asked, nofun⟩
    · cases moves

theorem shown_opened : Shown [] .opened [] none where
  entries := rfl
  distinct := List.nodup_nil
  answers s there := by cases there
  last p there := by cases there
  served := rfl
  current j someone := by cases someone
  asked := rfl
  attended p there := by cases there

/-- Whatever a desk shows is a list of whole sessions, but for the command it is at. -/
theorem desk_serially {es : List DeskEvent} {d : Desk} (reaches : desk.run .opened es = some d) :
    ∃ sessions waits, Serially (desk.trace .opened es) sessions waits := by
  have kept := desk.invariant_run (fun past d => ∃ sessions waits, Shown past d sessions waits)
    (fun past d e d' before _ moves => shown_step before moves)
    ⟨[], none, shown_opened⟩
    (desk.steps_of_forall (fun _ _ _ => trivial) [] _ _) reaches
  obtain ⟨sessions, waits, shown⟩ := kept
  exact ⟨sessions, waits, shown.toSerially⟩

/-! ## The server -/

/-- What a client sees of the desk. -/
def atDesk : Entry → Option Entry
  | .served j cmd => some (.served j cmd)
  | .answered j r => some (.answered j r)
  | _ => none

variable {n : Nat}

structure Stands (w : World n) (d : Desk) : Prop where
  text : InText w.server
  engaged : Clients.engaged w.server = w.current.isSome
  current : d.current = w.current
  asked : busy w.server = d.asked.toList
  served : ∀ j ∈ d.served, (w.clients j).link = .accepted

theorem asked_of_idle {w : World n} {d : Desk} (stands : Stands w d) (idle : busy w.server = []) :
    d.asked = none := by
  have asked := stands.asked
  rw [idle] at asked
  cases same : d.asked with
  | none => rfl
  | some header => simp [same] at asked

/-- A client that is not at the desk moves. -/
theorem Stands.aside {w : World n} {d : Desk} {j : Nat} {c : Client} (stands : Stands w d)
    (link : (w.clients j).link = .accepted → c.link = .accepted) : Stands (w.setClient j c) d := by
  refine ⟨stands.text, stands.engaged, stands.current, stands.asked, fun k there => ?_⟩
  rw [World.setClient_clients]
  split
  · next same => exact link (same ▸ stands.served k there)
  · exact stands.served k there

/-- The server with its clients refines the desk. -/
theorem exchange_simulates : Simulates (exchange n) desk atDesk Stands := by
  intro w d e w' stands moves
  have text := inText_net stands.text moves
  -- between two connections nobody is at the desk
  have nobody (free : engaged w.server = false) : w.current = none := by
    simpa using stands.engaged.symm.trans free
  have seen {d' : Desk} {e' : DeskEvent} (moves' : desk.step d e' = some d')
      (shown : (entry w e).toList.filterMap atDesk = (desk.label d e').toList)
      (related : Stands w' d') :
      Follows desk Stands d (((exchange n).label w e).toList.filterMap atDesk) w' := by
    change Follows desk Stands d ((entry w e).toList.filterMap atDesk) w'
    rw [shown]
    exact .one moves' related
  have unseen (hidden : (entry w e).toList.filterMap atDesk = []) (related : Stands w' d) :
      Follows desk Stands d (((exchange n).label w e).toList.filterMap atDesk) w' := by
    change Follows desk Stands d ((entry w e).toList.filterMap atDesk) w'
    rw [hidden]
    exact .stay related
  cases net_cases moves with
  | connect away | connectFails away =>
    exact unseen rfl (stands.aside fun accepted => by simp [away] at accepted)
  | @act j c h =>
    refine unseen ?_ (stands.aside fun accepted => (link_of_act h).1.trans accepted)
    rcases act_messages (j := j) h with ⟨_, is, -⟩ | ⟨_, is, -⟩ | ⟨is, -⟩ <;> simp [entry, is, atDesk]
  | endOfFile left h =>
    exact unseen rfl (stands.aside fun accepted => (link_of_endOfFile h).1.trans accepted)
  | @accept j waits at_ =>
    have free := nobody (by simp [engaged, at_])
    have idle := asked_of_idle stands (by simp [busy, at_])
    have new : j ∉ d.served := fun there => by simp [stands.served j there] at waits
    have moves' : desk.step d (.accept j) =
        some { d with served := d.served ++ [j], current := some j } := by
      simp [desk, Desk.step, stands.current, free, new]
    refine seen moves' rfl ⟨text, rfl, rfl, by rw [idle]; rfl, fun k there => ?_⟩
    by_cases same : k = j
    · simp [World.setClient_clients, same]
    · have old : k ∈ d.served := by simpa [same] using there
      simpa [World.setClient_clients, same] using stands.served k old
  | acceptNone at_ =>
    have idle := asked_of_idle stands (by simp [busy, at_])
    refine unseen rfl ⟨text, ?_, stands.current, by rw [idle]; rfl, stands.served⟩
    simpa [engaged, at_] using stands.engaged
  | @serve j cmd cmds current sent at_ =>
    have taken : entry w .serve = some (.served j cmd) := by simp [entry, current, sent]
    have idle := asked_of_idle stands (by simp [busy, at_])
    have moves' : desk.step d (.take cmd) = some { d with asked := some (commandHeader cmd) } := by
      simp [desk, Desk.step, stands.current, current, idle]
    refine seen moves' ?_
      ⟨text, by simp [engaged, World.setClient, current], stands.current, rfl, ?_⟩
    · simp [taken, atDesk, desk, Desk.label, stands.current, current]
    · exact (stands.aside (c := { w.clients j with toServer := cmds }) id).served
  | @hangUp j current sent closed at_ =>
    have silent : entry w .serve = none := by simp [entry, current, sent]
    have idle := asked_of_idle stands (by simp [busy, at_])
    have moves' : desk.step d .close = some { d with current := none } := by
      simp [desk, Desk.step, stands.current, current, idle]
    exact seen moves' (by rw [silent]; rfl) ⟨text, rfl, rfl, by rw [idle]; rfl, stands.served⟩
  | @brokenPipe j current at_ closed =>
    exact unseen (by simp [entry, current, closed])
      ⟨text, stands.engaged, stands.current, stands.asked, stands.served⟩
  | @reply j current at_ listens =>
    have gives : entry w .reply = some (.answered j w.server.res) := by
      simp [entry, current, listens]
    have asked : d.asked = some (replyHeader w.server.res) := by
      have same := stands.asked
      cases header : d.asked with
      | none => simp [busy, at_, header] at same
      | some header' => simpa [busy, at_, header] using same.symm
    have moves' : desk.step d (.answer w.server.res) = some { d with asked := none } := by
      simp [desk, Desk.step, stands.current, current, asked]
    refine seen moves' ?_
      ⟨text, by simp [engaged, World.setClient, current], stands.current, rfl, ?_⟩
    · simp [gives, atDesk, desk, Desk.label, stands.current, current]
    · exact (stands.aside (c := { w.clients j with
        toClient := (w.clients j).toClient ++ [w.server.res] }) id).served
  | @inner e s own h =>
    obtain ⟨engaged', busy'⟩ := engaged_inner stands.text own h
    refine unseen ?_ ⟨text, engaged'.trans stands.engaged, stands.current,
      busy'.trans stands.asked, stands.served⟩
    rw [entry]
    cases observation w.server e <;> rfl

/-- Whatever commands the clients send, the server handles them in whole sessions: one client after
another, no client twice, and within a session each command is answered, under its own name, before
the next is taken up. -/
theorem commands_serial (progs : Nat → List Action) (r : (exchange n).Run (World.start n progs)) :
    ∃ sessions waits, Serially
      (((exchange n).trace (World.start n progs) r.events).filterMap atDesk) sessions waits := by
  have start : Stands (World.start n progs) Desk.opened := ⟨inText_init, rfl, rfl, rfl, nofun⟩
  obtain ⟨es, d, reaches, seen, -⟩ := exchange_simulates.run start r.reaches
  rw [← seen]
  exact desk_serially reaches

end MiniKvm.Guarantees.Sessions
