import MiniKvm.Source.ClientCalls

/-!
# Does a client act only on a real reply?

It does until a call fails: a failed connect is taken for a connection, and a recv that fails or
falls short for a reply.
-/
namespace MiniKvm.Guarantees.RealReplies
open Source Source.ClientCalls

/-! ## The property -/

/-- Every byte of the reply to a command. -/
def HoldsReply (res : Nat → Option Octet) (command : Nat) : Prop :=
  ∀ j < resultSize, res j = some ⟨command, j⟩

def IsWhole (size : Nat) : Count → Prop
  | .error => False
  | .bytes most => size ≤ most

def IsReal (answer : Answer) : Prop :=
  answer.ret = 0 → IsWhole commandSize answer.sent ∧ HoldsReply answer.res answer.command

/-- What a subcommand does in the outcomes of one `peer`. -/
structure ActsOnReplies (peer : Peer) (program : Clients.Program) : Prop where
  connected : 0 ≤ (miniKvmIpcConnect peer).1 → (miniKvmIpcConnect peer).2.isOpen = true
  real : ∀ answer ∈ (subcommand peer program).answers, IsReal answer
  closedOnce : (subcommand peer program).closes = if peer.socket.isSome then 1 else 0

/-! ## The outcomes it holds for -/

/-- `res` after `i` whole replies. -/
def replied (i : Nat) (j : Nat) : Option Octet :=
  if i = 0 then none else if j < resultSize then some ⟨i - 1, j⟩ else none

/-- From command `i` on, until the subcommand ends: send fails, or send and recv move everything. -/
def Answered (peer : Peer) : List Operation → Nat → Prop
  | [], _ => True
  | .sendCmd _ :: rest, i =>
    peer.send i = .error ∨
      IsWhole commandSize (peer.send i) ∧ IsWhole resultSize (peer.recv i) ∧
        Answered peer rest (i + 1)
  | .closeIf states :: rest, i =>
    (∃ v ∈ states, stateOf peer (replied i) = some v) ∨ Answered peer rest i

/-! ## One command -/

theorem replyOctets_getElem? (i j : Nat) :
    (replyOctets i)[j]? = if j < resultSize then some ⟨i, j⟩ else none := by
  unfold replyOctets
  rw [List.getElem?_map]
  split
  · rename_i inside
    simp [List.getElem?_range inside]
  · rename_i behind
    rw [List.getElem?_eq_none (by simpa using behind)]
    rfl

theorem length_replyOctets (i : Nat) : (replyOctets i).length = resultSize := by
  simp [replyOctets]

theorem resultSize_pos : 0 < resultSize := by
  unfold resultSize
  omega

theorem replied_ne (i j : Nat) : replied i j ≠ some ⟨i, j⟩ := by
  unfold replied
  split
  · simp
  · split
    · intro same
      injection same with same
      injection same with same
      omega
    · simp

/-- A client between two commands that have gone well so far. -/
structure Ready (c : Client) : Prop where
  isOpen : c.isOpen = true
  closes : c.closes = 0
  inFlight : c.inFlight = []
  res : c.res = replied c.commands

theorem received_res {c : Client} {i : Nat} (flight : c.inFlight = replyOctets i)
    (most j : Nat) :
    (c.received most).res j =
      if j < min most resultSize then some ⟨i, j⟩ else c.res j := by
  simp only [Client.received, flight, List.getElem?_take, replyOctets_getElem?]
  by_cases inside : j < min most resultSize
  · have : j < resultSize := by omega
    simp [inside, this]
  · simp [inside]

theorem received_whole {c : Client} {i : Nat} (flight : c.inFlight = replyOctets i)
    (before : c.res = replied i) {most : Nat} (whole : resultSize ≤ most) :
    (c.received most).res = replied (i + 1) ∧ (c.received most).inFlight = [] := by
  constructor
  · funext j
    rw [received_res flight, Nat.min_eq_right whole, before]
    by_cases inside : j < resultSize
    · simp [replied, inside]
    · simp [replied, inside]
  · simp [Client.received, flight, Nat.min_eq_right whole, length_replyOctets]

theorem received_short {c : Client} {i : Nat} (flight : c.inFlight = replyOctets i)
    (before : c.res = replied i) {most : Nat} (short : most < resultSize) :
    ¬ HoldsReply (c.received most).res i := by
  intro holds
  have last := holds most short
  rw [received_res flight, if_neg (by omega), before] at last
  exact replied_ne i most last

/-- A send that fails ends the subcommand. -/
theorem sendCmd_error {peer : Peer} {c : Client} (ready : Ready c)
    (cmd : MiniKvmStatusCommand) (failed : peer.send c.commands = .error) :
    miniKvmIpcSendCmd peer cmd c = (-1, c.answered cmd .error (-1)) := by
  simp [miniKvmIpcSendCmd, ready.isOpen, failed]

/-- A send that does not fail is followed by the recv, and by a return of 0 whatever that says. -/
structure Sent (peer : Peer) (c c' : Client) (cmd : MiniKvmStatusCommand) (count : Nat) :
    Prop where
  answers : c'.answers = c.answers ++ [⟨c.commands, cmd, .bytes count, 0, c'.res⟩]
  commands : c'.commands = c.commands + 1
  ready : commandSize ≤ count → IsWhole resultSize (peer.recv c.commands) → Ready c'
  unreal : commandSize ≤ count → ¬ IsWhole resultSize (peer.recv c.commands) →
    ¬ HoldsReply c'.res c.commands

theorem sendCmd_bytes {peer : Peer} {c : Client} (ready : Ready c) (cmd : MiniKvmStatusCommand)
    {count : Nat} (sent : peer.send c.commands = .bytes count) :
    (miniKvmIpcSendCmd peer cmd c).1 = 0 ∧
      Sent peer c (miniKvmIpcSendCmd peer cmd c).2 cmd count := by
  have size : commandSize = 56 := rfl
  unfold miniKvmIpcSendCmd
  simp only [ready.isOpen, if_true, sent]
  refine ⟨trivial, ?_⟩
  by_cases nothing : count = 0
  · -- Nothing has been sent, and there is nothing to receive.
    simp only [if_pos nothing]
    refine ⟨?_, ?_, fun _ => by omega, fun _ => by omega⟩
    · cases peer.recv c.commands <;> rfl
    · cases peer.recv c.commands <;> rfl
  · have flight :
        ({ c with inFlight := c.inFlight ++ replyOctets c.commands } : Client).inFlight =
          replyOctets c.commands := by
      simp [ready.inFlight]
    simp only [if_neg nothing]
    cases received : peer.recv c.commands with
    | error =>
      simp only
      refine ⟨rfl, rfl, fun _ whole => ?_, fun _ _ holds => ?_⟩
      · exact absurd whole (by simp [received, IsWhole])
      · have first := holds 0 resultSize_pos
        simp only [Client.answered, ready.res] at first
        exact replied_ne _ _ first
    | bytes most =>
      simp only
      refine ⟨rfl, rfl, fun _ whole => ?_, fun _ short => ?_⟩
      · rw [received] at whole
        obtain ⟨res, empty⟩ := received_whole flight ready.res whole
        exact ⟨rfl, ready.closes, empty, res⟩
      · rw [received] at short
        exact received_short flight ready.res (Nat.lt_of_not_le short)

/-! ## The subcommands -/

/-- One answer more, from a client that has closed and answered as often as before. -/
theorem sendCmd_frame (peer : Peer) (cmd : MiniKvmStatusCommand) (c : Client) :
    ∃ (between : Client) (sent : Count) (ret : Int),
      (miniKvmIpcSendCmd peer cmd c).2 = between.answered cmd sent ret ∧
        between.answers = c.answers ∧ between.closes = c.closes := by
  unfold miniKvmIpcSendCmd
  dsimp only
  split
  · exact ⟨c, _, _, rfl, rfl, rfl⟩
  · refine ⟨_, _, _, rfl, ?_, ?_⟩
    · split <;> split <;> rfl
    · split <;> split <;> rfl

theorem answers_sendCmd (peer : Peer) (cmd : MiniKvmStatusCommand) (c : Client) :
    c.answers ⊆ (miniKvmIpcSendCmd peer cmd c).2.answers := by
  obtain ⟨between, sent, ret, text, answers, -⟩ := sendCmd_frame peer cmd c
  rw [text, ← answers]
  exact List.subset_append_left _ _

theorem answers_perform (peer : Peer) (ops : List Operation) (c : Client) :
    c.answers ⊆ (perform peer ops c).answers := by
  induction ops generalizing c with
  | nil => exact List.Subset.refl _
  | cons op rest ih =>
    cases op with
    | sendCmd cmd =>
      simp only [perform]
      split
      · exact answers_sendCmd peer cmd c
      · exact List.Subset.trans (answers_sendCmd peer cmd c) (ih _)
    | closeIf states =>
      simp only [perform]
      split
      · exact List.Subset.refl _
      · exact ih c

theorem closes_sendCmd (peer : Peer) (cmd : MiniKvmStatusCommand) (c : Client) :
    (miniKvmIpcSendCmd peer cmd c).2.closes = c.closes := by
  obtain ⟨between, sent, ret, text, -, closes⟩ := sendCmd_frame peer cmd c
  rw [text, ← closes]
  rfl

/-- Every path of a subcommand comes by `close_socket`, once. -/
theorem closes_perform (peer : Peer) (ops : List Operation) (c : Client) :
    (perform peer ops c).closes = c.closes + 1 := by
  induction ops generalizing c with
  | nil => rfl
  | cons op rest ih =>
    cases op with
    | sendCmd cmd =>
      simp only [perform]
      split
      · simp [Client.close, closes_sendCmd]
      · rw [ih, closes_sendCmd]
    | closeIf states =>
      simp only [perform]
      split
      · rfl
      · exact ih c

theorem Sent.last_mem {peer : Peer} {c c' : Client} {cmd : MiniKvmStatusCommand} {count : Nat}
    (sent : Sent peer c c' cmd count) : ⟨c.commands, cmd, .bytes count, 0, c'.res⟩ ∈ c'.answers := by
  rw [sent.answers]
  exact List.mem_append_right _ (List.mem_singleton_self _)

/-- One answer more is one condition more. -/
theorem isReal_iff {peer : Peer} {c c' : Client} {cmd : MiniKvmStatusCommand} {count : Nat}
    (sent : Sent peer c c' cmd count) :
    IsReal ⟨c.commands, cmd, .bytes count, 0, c'.res⟩ ↔
      commandSize ≤ count ∧ IsWhole resultSize (peer.recv c.commands) := by
  constructor
  · intro real
    obtain ⟨long, holds⟩ := real rfl
    refine ⟨long, ?_⟩
    by_contra short
    exact sent.unreal long short holds
  · rintro ⟨long, whole⟩ -
    have ready := sent.ready long whole
    refine ⟨long, ?_⟩
    intro j inside
    rw [ready.res, sent.commands]
    simp [replied, inside]

theorem real_perform_iff {peer : Peer} (ops : List Operation) (c : Client) (ready : Ready c)
    (before : ∀ answer ∈ c.answers, IsReal answer) :
    (∀ answer ∈ (perform peer ops c).answers, IsReal answer) ↔ Answered peer ops c.commands := by
  induction ops generalizing c with
  | nil => exact ⟨fun _ => trivial, fun _ => before⟩
  | cons op rest ih =>
    cases op with
    | sendCmd cmd =>
      simp only [perform, Answered]
      cases sent : peer.send c.commands with
      | error =>
        rw [sendCmd_error ready cmd sent]
        simp only [true_or, iff_true]
        intro answer member
        simp only [Client.close, Client.answered] at member
        rcases List.mem_append.mp member with earlier | last
        · exact before answer earlier
        · rw [List.mem_singleton.mp last]
          intro zero
          cases zero
      | bytes count =>
        obtain ⟨zero, sentIt⟩ := sendCmd_bytes ready cmd sent
        rw [if_neg (by simp [zero])]
        have ofNow := isReal_iff sentIt
        constructor
        · intro all
          have now := all _ (answers_perform peer rest _ sentIt.last_mem)
          obtain ⟨long, whole⟩ := ofNow.mp now
          have after := (ih _ (sentIt.ready long whole) ?_).mp all
          · rw [sentIt.commands] at after
            exact Or.inr ⟨long, whole, after⟩
          · intro answer member
            exact all answer (answers_perform peer rest _ member)
        · intro cond
          rcases cond with impossible | ⟨long, whole, after⟩
          · cases impossible
          · rw [← sentIt.commands] at after
            refine (ih _ (sentIt.ready long whole) ?_).mpr after
            intro answer member
            rw [sentIt.answers] at member
            rcases List.mem_append.mp member with earlier | last
            · exact before answer earlier
            · rw [List.mem_singleton.mp last]
              exact ofNow.mpr ⟨long, whole⟩
    | closeIf states =>
      simp only [perform, Answered, ready.res]
      split
      · rename_i goes
        exact ⟨fun _ => Or.inl goes, fun _ => before⟩
      · rename_i stays
        rw [ih c ready before]
        exact ⟨Or.inr, fun cond => cond.resolve_left stays⟩

theorem ready_start : Ready (.start true) where
  isOpen := rfl
  closes := rfl
  inFlight := rfl
  res := by
    funext j
    simp [Client.start, replied]

/-- A client acts only on real replies exactly when a socket it gets connects, and no send falls
short before send fails, nor any recv. -/
theorem actsOnReplies_iff_answered (peer : Peer) (program : Clients.Program) :
    ActsOnReplies peer program ↔
      peer.socket = none ∨ peer.connect = true ∧ Answered peer (operations program) 0 := by
  cases socket : peer.socket with
  | none =>
    simp only [true_or, iff_true]
    refine ⟨?_, ?_, ?_⟩
    · simp [miniKvmIpcConnect, socket]
    · simp [subcommand, miniKvmIpcConnect, socket, Client.start]
    · simp [subcommand, miniKvmIpcConnect, socket, Client.start]
  | some fd =>
    simp only [reduceCtorEq, false_or]
    by_cases connects : peer.connect = true
    · have goes : subcommand peer program = perform peer (operations program) (.start true) := by
        have : ¬ (fd : Int) < 0 := by omega
        simp [subcommand, miniKvmIpcConnect, socket, connects, this]
      have reals : (∀ answer ∈ (perform peer (operations program) (.start true)).answers,
          IsReal answer) ↔ Answered peer (operations program) 0 :=
        real_perform_iff (operations program) _ ready_start (by simp [Client.start])
      constructor
      · intro acts
        have real := acts.real
        rw [goes] at real
        exact ⟨connects, reals.mp real⟩
      · rintro ⟨-, answered⟩
        refine ⟨?_, ?_, ?_⟩
        · simp [miniKvmIpcConnect, socket, connects, Client.start]
        · rw [goes]
          exact reals.mpr answered
        · rw [goes, closes_perform, socket]
          rfl
    · constructor
      · intro acts
        have isOpen := acts.connected
        simp [miniKvmIpcConnect, socket, connects, Client.close] at isOpen
      · rintro ⟨yes, -⟩
        exact absurd yes connects

/-- No server listens any more. -/
def refused : Peer where
  socket := some 3
  connect := false
  send := fun _ => .error
  recv := fun _ => .error
  reply := fun _ _ => 0

/-- The descriptor of a socket that did not connect is returned, and closed twice. -/
theorem refused_not_actsOnReplies :
    (miniKvmIpcConnect refused).1 = 3 ∧ (miniKvmIpcConnect refused).2.isOpen = false ∧
      (subcommand refused .pause).closes = 2 ∧ ¬ ActsOnReplies refused .pause := by
  refine ⟨rfl, rfl, ?_, ?_⟩
  · rfl
  · intro acts
    exact absurd (acts.connected (by decide)) (by decide)

end MiniKvm.Guarantees.RealReplies
