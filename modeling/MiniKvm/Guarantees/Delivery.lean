import MiniKvm.Source.ClientTraces

/-!
# Is every command answered once?

A client that waits in the backlog can already send, the server serves one connection until its peer
closes it, and it leaves its loop between two connections only. Clients that send whole commands, and
take replies whenever they like, see them in order, and none is lost while its connection is served;
what a client in the backlog has sent may never be read. A client that closes before it is answered
kills the server by SIGPIPE.
-/
namespace MiniKvm.Guarantees.Delivery
open Source Source.Server Source.Clients

variable {n : Nat}

/-! ## Messages -/

theorem ledger_run (progs : Nat → List Action) (r : (exchange n).Run (World.start n progs)) :
    Ledger ((exchange n).trace (World.start n progs) r.events) r.final := by
  have kept := (exchange n).invariant_run Ledger
    (fun past w e w' before _ moves => ledger_step before moves) (ledger_init progs)
    ((exchange n).steps_of_forall (fun _ _ _ => trivial) _ _ _) r.reaches
  exact kept

/-- For every client: what it has sent is what has been taken up, in order, and then what is in flight;
what it has been answered is what it has received, in order, and then what is in flight; and the
replies name the commands taken up, in order, up to the one that is being handled. -/
theorem messages_delivered (progs : Nat → List Action)
    (r : (exchange n).Run (World.start n progs)) (j : Nat) :
    let past := (exchange n).trace (World.start n progs) r.events
    sentBy j past = servedTo j past ++ (r.final.clients j).toServer ∧
      answeredTo j past = receivedBy j past ++ (r.final.clients j).toClient ∧
        (servedTo j past).map commandHeader =
          (answeredTo j past).map replyHeader ++ underway r.final j := by
  have ledger := ledger_run progs r
  exact ⟨ledger.commands j, ledger.replies j, ledger.matched j⟩

/-! ## Connections -/

/-- A client has been served to its end, is being served, or has not been served at all. -/
structure Settled (past : List Entry) (w : World n) : Prop where
  current : ∀ j, w.current = some j → (w.clients j).link = .accepted
  unserved : ∀ j, (w.clients j).link ≠ .accepted → servedTo j past = []
  finished : ∀ j, (w.clients j).link = .accepted → w.current ≠ some j →
    (w.clients j).prog = [] ∧ (w.clients j).toServer = []

theorem settled_init (progs : Nat → List Action) : Settled [] (World.start n progs) :=
  ⟨fun _ nobody => (by cases nobody), fun _ _ => rfl, fun _ accepted => by cases accepted⟩

/-- A client changes that the server is not done with; its connection stays where it is. -/
theorem settled_client {past : List Entry} {w : World n} {j : Nat} {c : Client} {x : Option Entry}
    (settled : Settled past w) (link : c.link = (w.clients j).link)
    (more : (w.clients j).prog ≠ [] ∨ w.current = some j)
    (other : ∀ k cmd, .served k cmd ∉ x) :
    Settled (past ++ x.toList) (w.setClient j c) := by
  have links (k : Nat) : ((w.setClient j c).clients k).link = (w.clients k).link := by
    rw [World.setClient_clients]
    split
    · next same => rw [same, link]
    · rfl
  refine ⟨fun k current => (links k).trans (settled.current k current), fun k notAccepted => ?_,
    fun k accepted notCurrent => ?_⟩
  · have before := settled.unserved k (links k ▸ notAccepted)
    cases x with
    | none => simpa using before
    | some x =>
      cases x with
      | served k' cmd => exact absurd rfl (other k' cmd)
      | _ => simpa [servedTo] using before
  · have finished := settled.finished k (links k ▸ accepted) notCurrent
    have apart : k ≠ j := by
      rintro rfl
      exact more.elim (fun left => left finished.1) notCurrent
    rw [World.setClient_clients, if_neg apart]
    exact finished

/-- A client that has not been served goes on to another place where it is not. -/
theorem settled_away {past : List Entry} {w : World n} {j : Nat} {c : Client}
    (settled : Settled past w) (before : (w.clients j).link ≠ .accepted)
    (after : c.link ≠ .accepted) : Settled past (w.setClient j c) := by
  have apart {k : Nat} (accepted : ((w.setClient j c).clients k).link = .accepted) : k ≠ j := by
    rintro rfl
    rw [World.setClient_clients, if_pos rfl] at accepted
    exact after accepted
  refine ⟨fun k current => ?_, fun k notAccepted => ?_, fun k accepted notCurrent => ?_⟩
  · have accepted := settled.current k current
    have other : k ≠ j := fun same => before (same ▸ accepted)
    rwa [World.setClient_clients, if_neg other]
  · by_cases same : k = j
    · exact settled.unserved k (same ▸ before)
    · rw [World.setClient_clients, if_neg same] at notAccepted
      exact settled.unserved k notAccepted
  · have other := apart accepted
    rw [World.setClient_clients, if_neg other] at accepted ⊢
    exact settled.finished k accepted notCurrent

theorem settled_step {past : List Entry} {w w' : World n} {e : NetEvent n}
    (ledger : Ledger past w) (settled : Settled past w) (moves : netStep w e = some w') :
    Settled (past ++ (entry w e).toList) w' := by
  -- between two connections no client is being served
  have nobody (free : engaged w.server = false) : w.current = none := by
    simpa using ledger.engaged.symm.trans free
  have unlabelled (silent : entry w e = none) (same : Settled past w') :
      Settled (past ++ (entry w e).toList) w' := by
    simpa [silent] using same
  cases net_cases moves with
  | @connect j away =>
    exact unlabelled rfl (settled_away settled (by simp [away]) (by simp))
  | @connectFails j away =>
    exact unlabelled rfl (settled_away settled (by simp [away]) (by simp))
  | @act j c h =>
    obtain ⟨link, more⟩ := link_of_act h
    refine settled_client settled link (.inl more) fun k cmd served => ?_
    rcases act_messages (j := j) h with ⟨_, is, -⟩ | ⟨_, is, -⟩ | ⟨is, -⟩ <;>
      simp [entry, is] at served
  | @endOfFile j c left h =>
    obtain ⟨link, more⟩ := link_of_endOfFile h
    exact settled_client settled link (.inl more) (by simp [entry])
  | @accept j waits at_ =>
    have free := nobody (by simp [engaged, at_])
    have links (k : Nat) (other : k ≠ j) :
        (w.setClient j { w.clients j with link := .accepted }).clients k = w.clients k := by
      rw [World.setClient_clients, if_neg other]
    refine unlabelled rfl ⟨fun k current => ?_, fun k notAccepted => ?_,
      fun k accepted notCurrent => ?_⟩
    · cases current
      simp [World.setClient_clients]
    · by_cases same : k = j
      · exact settled.unserved k (by simp [same, waits])
      · exact settled.unserved k (links k same ▸ notAccepted)
    · have other : k ≠ j := fun same => notCurrent (by rw [same])
      have kept := links k other
      have finished := settled.finished k (kept ▸ accepted) (by simp [free])
      simpa only [kept] using finished
  | acceptNone at_ => exact unlabelled rfl ⟨settled.current, settled.unserved, settled.finished⟩
  | @serve j cmd cmds current sent at_ =>
    have taken : entry w .serve = some (.served j cmd) := by simp [entry, current, sent]
    have accepted := settled.current j current
    have links (k : Nat) (other : k ≠ j) :
        (w.setClient j { w.clients j with toServer := cmds }).clients k = w.clients k := by
      rw [World.setClient_clients, if_neg other]
    rw [taken]
    refine ⟨fun k current' => ?_, fun k notAccepted => ?_, fun k accepted' notCurrent => ?_⟩
    · cases current.symm.trans current'
      simpa [World.setClient_clients] using accepted
    · by_cases same : k = j
      · subst same
        simp [World.setClient_clients, accepted] at notAccepted
      · have before := settled.unserved k (links k same ▸ notAccepted)
        simpa [servedTo, Ne.symm same] using before
    · have other : k ≠ j := fun same => notCurrent (same ▸ current)
      have kept := links k other
      have finished := settled.finished k (kept ▸ accepted') notCurrent
      simpa only [kept] using finished
  | @hangUp j current sent closed at_ =>
    refine unlabelled (by simp [entry, current, sent])
      ⟨fun _ nobody => (by cases nobody), settled.unserved, fun k accepted _ => ?_⟩
    by_cases same : k = j
    · subst same
      exact ⟨closed, sent⟩
    · exact settled.finished k accepted fun current' =>
        same (Option.some.inj (current'.symm.trans current))
  | @brokenPipe j current at_ closed =>
    exact unlabelled (by simp [entry, current, closed])
      ⟨settled.current, settled.unserved, settled.finished⟩
  | @reply j current at_ listens =>
    have gives : entry w .reply = some (.answered j w.server.res) := by
      simp [entry, current, listens]
    have kept : Settled (past ++ (some (Entry.answered j w.server.res)).toList)
        (w.setClient j { w.clients j with
          toClient := (w.clients j).toClient ++ [w.server.res] }) :=
      settled_client settled rfl (.inr current) (by simp)
    rw [gives]
    exact ⟨kept.current, kept.unserved, kept.finished⟩
  | @inner e s own h =>
    have same : Settled past { w with server := s } :=
      ⟨settled.current, settled.unserved, settled.finished⟩
    rw [entry]
    cases observation w.server e with
    | none => simpa using same
    | some v =>
      refine ⟨same.current, fun k notAccepted => ?_, same.finished⟩
      simpa [servedTo] using same.unserved k notAccepted

theorem settled_run (progs : Nat → List Action) (r : (exchange n).Run (World.start n progs)) :
    Settled ((exchange n).trace (World.start n progs) r.events) r.final := by
  have both := (exchange n).invariant_run (fun past w => Ledger past w ∧ Settled past w)
    (fun past w e w' before _ moves =>
      ⟨ledger_step before.1 moves, settled_step before.1 before.2 moves⟩)
    ⟨ledger_init progs, settled_init progs⟩
    ((exchange n).steps_of_forall (fun _ _ _ => trivial) _ _ _) r.reaches
  exact both.2

/-- A client that is not being served has been served to its end or not at all: either it has closed
its socket, and all that it ever sent has been taken up and answered; or nothing that it sent has been
read, and nothing has come back. When the server has left its loop, this is so of every client. -/
theorem connections_whole (progs : Nat → List Action)
    (r : (exchange n).Run (World.start n progs)) (j : Nat) :
    let past := (exchange n).trace (World.start n progs) r.events
    (r.final.current ≠ some j →
      (r.final.clients j).prog = [] ∧ servedTo j past = sentBy j past ∧
          (answeredTo j past).map replyHeader = (sentBy j past).map commandHeader ∨
        (r.final.clients j).link ≠ .accepted ∧ servedTo j past = [] ∧ answeredTo j past = []) ∧
      (r.final.server.main = .left → r.final.current ≠ some j) := by
  have ledger := ledger_run progs r
  have settled := settled_run progs r
  refine ⟨fun notCurrent => ?_, fun left current => ?_⟩
  · have idle : underway r.final j = [] := if_neg notCurrent
    have matched := ledger.matched j
    rw [idle, List.append_nil] at matched
    by_cases accepted : (r.final.clients j).link = .accepted
    · obtain ⟨closed, toServer⟩ := settled.finished j accepted notCurrent
      have commands := ledger.commands j
      rw [toServer, List.append_nil] at commands
      refine .inl ⟨closed, commands.symm, ?_⟩
      rw [commands, matched]
    · have unserved := settled.unserved j accepted
      refine .inr ⟨accepted, unserved, ?_⟩
      rw [unserved, List.map_nil, eq_comm, List.map_eq_nil_iff] at matched
      exact matched
  · have engaged := ledger.engaged
    simp [Clients.engaged, left, current] at engaged

end MiniKvm.Guarantees.Delivery
