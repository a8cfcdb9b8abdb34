import MiniKvm.Source.RunResources

/-!
# Are the sockets of clients closed?

run_main_loop serves a connection until recv returns 0 or less, and goes on without a close. Only
DUMP_MEM closes what it opens.
-/
namespace MiniKvm.Guarantees.OpenConnections
open Lib.Resources Source Source.RunStages Descriptors

/-- As much is open as before, and what has been opened has been closed once. -/
structure Restored (t u : Table Resource) : Prop where
  live : ∀ r, r ∈ u.live ↔ r ∈ t.live
  closed : ∃ acts, u.history = t.history ++ acts ∧ Balanced acts

theorem restored_iff {t u : Table Resource} {more : List Resource} (adds : Adds t u more) :
    Restored t u ↔ more = [] := by
  obtain ⟨live, acts, history, reads⟩ := adds
  constructor
  · rintro ⟨-, acts', history', balanced⟩
    have same : acts' = acts := List.append_cancel_left (history'.symm.trans history)
    rw [same, Lib.Resources.Balanced, reads] at balanced
    exact Option.some.inj balanced
  · rintro rfl
    exact ⟨fun r => by rw [live, List.nil_append], acts, history, reads⟩

/-! ## One iteration -/

theorem handleCommand_adds (t : Table Resource) (served : Served) :
    Adds t (handleCommand t served) [] := by
  unfold handleCommand
  split
  · cases served.stdoutOpens with
    | false => exact .refl t
    | true =>
      have opened : (openFd t true).1 ≠ -1 := by
        simp only [openFd, if_true]
        omega
      have closes : close (openFd t true).2 (openFd t true).1 =
          (t.acquire (.fd (lowestFd t))).release (.fd (lowestFd t)) := by
        rw [openFd, if_pos rfl, close, if_neg (by omega), Int.toNat_natCast]
      dsimp only
      rw [if_pos opened, closes]
      exact .acquire_release t _
  · exact .refl t

theorem handleCommands_adds (t : Table Resource) (commands : List Served) :
    Adds t (commands.foldl handleCommand t) [] := by
  induction commands generalizing t with
  | nil => exact .refl t
  | cons served commands ih =>
    exact (handleCommand_adds t served).trans (ih (handleCommand t served))

/-- A connection comes in. -/
def Connects (accepted : Accepted) : Prop := ∃ commands, accepted = .connection commands

/-- A connection stays open, however it is used. -/
theorem acceptRound_adds (t : Table Resource) (accepted : Accepted) :
    ∃ more, Adds t (acceptRound t accepted) more ∧ (more = [] ↔ ¬ Connects accepted) := by
  cases accepted with
  | nobody | failed => exact ⟨[], .refl t, by simp [Connects]⟩
  | connection commands =>
    refine ⟨[.fd (lowestFd t)], ?_, by simp [Connects]⟩
    have opened : Adds t (openFd t true).2 [.fd (lowestFd t)] := .acquire t _
    unfold acceptRound
    dsimp only
    split
    · exact opened.trans (handleCommands_adds _ commands)
    · exact opened

/-! ## The loop -/

/-- The iterations that are made. -/
def executed : VMState → List Round → List Round
  | _, [] => []
  | state, round :: rounds =>
    if state = .shutdown then []
    else round :: executed (if round.caught then .shutdown else round.state) rounds

theorem executed_take {state : VMState} {rounds : List Round} {round : Round} (k : Nat)
    (member : round ∈ executed state (rounds.take k)) : round ∈ executed state rounds := by
  induction rounds generalizing state k with
  | nil => simpa using member
  | cons first rounds ih =>
    cases k with
    | zero => cases member
    | succ k =>
      rw [List.take_succ_cons, executed] at member
      rw [executed]
      split
      · next down => simp [down] at member
      · next up =>
        rw [if_neg up] at member
        rcases List.mem_cons.mp member with rfl | later
        · exact List.mem_cons_self
        · exact List.mem_cons_of_mem _ (ih k later)

theorem mainLoop_adds (state : VMState) (t : Table Resource) (rounds : List Round) :
    ∃ more, Adds t (mainLoop state t rounds).2 more ∧
      (more = [] ↔ ∀ round ∈ executed state rounds, ¬ Connects round.accepted) := by
  induction rounds generalizing state t with
  | nil => exact ⟨[], .refl t, by simp [executed]⟩
  | cons round rounds ih =>
    unfold mainLoop executed
    split
    · exact ⟨[], .refl t, by simp⟩
    · obtain ⟨here, accepted, none⟩ := acceptRound_adds t round.accepted
      obtain ⟨later, rest, none'⟩ :=
        ih (if round.caught then .shutdown else round.state) (acceptRound t round.accepted)
      refine ⟨later ++ here, accepted.trans rest, ?_⟩
      rw [List.append_eq_nil_iff, none, none', List.forall_mem_cons]
      exact and_comm

/-- At the end of every iteration as much is open as when the loop was entered. -/
def Closes (socket : SocketCalls) (start : MiniKVMError) (first : VMState) (rounds : List Round)
    (p : Proc) : Prop :=
  ∀ k, Restored (runMainLoop socket start first [] p).2.table
    (runMainLoop socket start first (rounds.take k) p).2.table

theorem createSocket_success {calls : SocketCalls} {p : Proc} :
    (miniKvmIpcCreateSocket calls p).1 = .success ↔ calls.Fine := by
  have sock := openFd_neg p.table calls.socket
  unfold miniKvmIpcCreateSocket
  dsimp only
  constructor
  · intro success
    split_ifs at success with noFd bind listen
    exact ⟨by simpa using mt sock.mpr noFd, by simpa using bind, by simpa using listen⟩
  · rintro ⟨socket, bind, listen⟩
    have opened : ¬ (openFd p.table calls.socket).1 < 0 := by simp [socket]
    simp [opened, bind, listen]

/-- The table that the loop starts from. -/
theorem runMainLoop_table (socket : SocketCalls) (start : MiniKVMError) (first : VMState)
    (rounds : List Round) (p : Proc) : (runMainLoop socket start first rounds p).2.table =
      if socket.Fine ∧ start = .success then
        (mainLoop first (miniKvmIpcCreateSocket socket p).2.table rounds).2
      else (miniKvmIpcCreateSocket socket p).2.table := by
  have success := @createSocket_success socket p
  unfold runMainLoop
  generalize miniKvmIpcCreateSocket socket p = r at success ⊢
  obtain ⟨e, q⟩ := r
  split
  · next made =>
    cases made
    have fine := success.mp rfl
    split
    · next failed =>
      rw [if_neg fun entered => failed entered.2]
      rfl
    · next started =>
      rw [if_pos ⟨fine, not_not.mp started⟩]
      rfl
  · next failed made =>
    cases made
    rw [if_neg fun entered => failed (success.mpr entered.1)]
    rfl

/-- Where the loop is entered, the table is restored at the end of every iteration exactly where
nobody connects. -/
theorem connections_closed_iff (socket : SocketCalls) (start : MiniKVMError) (first : VMState)
    (rounds : List Round) (p : Proc) :
    Closes socket start first rounds p ↔
      (socket.Fine → start = .success →
        ∀ round ∈ executed first rounds, ¬ Connects round.accepted) := by
  unfold Closes
  simp only [runMainLoop_table]
  generalize (miniKvmIpcCreateSocket socket p).2.table = t
  by_cases entered : socket.Fine ∧ start = .success
  · simp only [if_pos entered]
    constructor
    · intro closes _ _
      obtain ⟨more, adds, none⟩ := mainLoop_adds first t rounds
      have whole := closes rounds.length
      rw [List.take_length] at whole
      exact none.mp ((restored_iff adds).mp whole)
    · intro nobody k
      obtain ⟨more, adds, none⟩ := mainLoop_adds first t (rounds.take k)
      refine (restored_iff adds).mpr (none.mpr fun round member => ?_)
      exact nobody entered.1 entered.2 round (executed_take k member)
  · simp only [if_neg entered]
    refine iff_of_true (fun _ => (restored_iff (.refl t)).mpr rfl) fun fine started => ?_
    exact absurd ⟨fine, started⟩ entered

/-- One client that sends nothing leaves its socket open. -/
theorem one_client_leaks : ¬ Closes ⟨true, true, true⟩ .success .running
    [⟨.connection [], false, .running⟩] .start := by
  intro closes
  have closed := (closes 1).live (.fd 4)
  exact absurd (closed.mp (by decide)) (by decide)

end MiniKvm.Guarantees.OpenConnections
