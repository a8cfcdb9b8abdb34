import MiniKvm.Source.Connection

/-!
# Are commands framed?

A stream socket keeps the bytes of the commands and not their boundaries. run_main_loop takes what one
recv returns for one command, so the commands that it passes on are those that were written as long
as every recv returns a whole command.
-/
namespace MiniKvm.Guarantees.CommandFraming
open Lib Lib.LittleEndian Source Source.Connection

variable {n : Nat} {cmds : List MiniKvmStatusCommand} {c t : Conn n}

/-- The bytes a client writes for a sequence of commands. -/
def written (cmds : List MiniKvmStatusCommand) : List UInt8 := cmds.flatMap encodeCommand

/-- The connection has been accepted, and the commands are on their way. The buffer holds what an
earlier connection has left in it. -/
structure Starts (cmds : List MiniKvmStatusCommand) (c : Conn n) : Prop where
  phase : c.phase = .serving
  receiving : c.server.main = .receiving
  buffer : c.buffer.length = commandSize
  unread : c.unread = written cmds
  passed : c.passed = []
  replies : c.replies = 0

/-- A command has been passed on and not been answered. -/
def InHand (c : Conn n) : Prop :=
  c.phase = .crashed ∨ c.phase = .serving ∧ c.server.main ≠ .receiving

instance (c : Conn n) : Decidable (InHand c) := inferInstanceAs (Decidable (_ ∨ _))

/-- The commands passed on are the first ones written, the bytes not yet read are the others, and
each has got its reply but for the one in hand; so that all have, at the end of the stream. -/
structure Framed (cmds : List MiniKvmStatusCommand) (c : Conn n) : Prop where
  passed : ∃ handled rest, cmds = handled ++ rest ∧ c.passed = handled.map some ∧
    c.unread = written rest
  replies : c.replies + (if InHand c then 1 else 0) = c.passed.length
  closed : c.phase = .closed → c.passed = cmds.map some ∧ c.replies = cmds.length

/-! ## Along any run -/

/-- One reply for each command passed on. -/
structure Counted (c : Conn n) : Prop where
  buffer : c.buffer.length = commandSize
  replies : c.replies + (if InHand c then 1 else 0) = c.passed.length
  closed : c.phase = .closed → c.unread = []

theorem Starts.counted (starts : Starts cmds c) : Counted c := by
  refine ⟨starts.buffer, ?_, fun closed => ?_⟩
  · simp [InHand, starts.phase, starts.receiving, starts.passed, starts.replies]
  · rw [starts.phase] at closed
    cases closed

theorem counted_step {e : ConnEvent n} (counted : Counted c) (h : connStep c e = some t) :
    Counted t := by
  obtain ⟨buffer, replies, closed⟩ := counted
  cases conn_cases h with
  | recv phase at_ some_ most there received decoded next goes =>
    have idle : ¬ InHand c := by simp [InHand, phase, at_]
    rw [if_neg idle] at replies
    have busy : InHand t := by
      rcases goes with ⟨-, crashed⟩ | ⟨serving, moved⟩
      · exact .inl crashed
      · exact .inr ⟨serving, moved⟩
    have open_ : t.phase ≠ .closed := by
      rcases goes with ⟨-, crashed⟩ | ⟨serving, -⟩
      · simp [crashed]
      · simp [serving]
    refine ⟨?_, ?_, fun shut => absurd shut open_⟩
    · rw [next, received, length_overwrite]
      exact buffer
    · rw [if_pos busy, next]
      simpa using replies
  | endOfStream phase all at_ =>
    have idle : ¬ InHand c := by simp [InHand, phase, at_]
    rw [if_neg idle] at replies
    exact ⟨buffer, by simpa [InHand] using replies, fun _ => all⟩
  | reply phase at_ back =>
    have busy : InHand c := .inr ⟨phase, by simp [at_]⟩
    rw [if_pos busy] at replies
    exact ⟨buffer, by simpa [InHand, phase, back] using replies, closed⟩
  | @inner e server phase same =>
    have hand : InHand { c with server } ↔ InHand c := by simp only [InHand, same, ne_eq]
    refine ⟨buffer, ?_, closed⟩
    rw [if_congr hand rfl rfl]
    exact replies

/-- The bytes that are missing from the commands passed on. -/
def owed (c : Conn n) : Nat := c.unread.length + commandSize * c.passed.length

theorem owed_step {e : ConnEvent n} (h : connStep c e = some t) :
    owed c ≤ owed t ∧ ∀ count, e = .recv count → owed t = owed c → count = commandSize := by
  cases conn_cases h with
  | recv phase at_ some_ most there received decoded next goes =>
    rw [next]
    simp only [owed, List.length_drop, List.length_append, List.length_cons, List.length_nil]
    refine ⟨by rw [Nat.mul_add]; omega, fun count same whole => ?_⟩
    cases same
    rw [Nat.mul_add] at whole
    omega
  | endOfStream phase all at_ => exact ⟨Nat.le_refl _, fun _ other => by cases other⟩
  | reply phase at_ back => exact ⟨Nat.le_refl _, fun _ other => by cases other⟩
  | inner phase same => exact ⟨Nat.le_refl _, fun _ other => by cases other⟩

theorem owed_run {events : List (ConnEvent n)} (reaches : (connection n).run c events = some t) :
    owed c ≤ owed t ∧
      ∀ count, .recv count ∈ events → owed t = owed c → count = commandSize := by
  induction events generalizing c with
  | nil =>
    cases reaches
    exact ⟨Nat.le_refl _, fun _ none => by cases none⟩
  | cons e rest ih =>
    obtain ⟨u, first, later⟩ := (connection n).run_cons.mp reaches
    obtain ⟨grows, short⟩ := owed_step first
    obtain ⟨grows', short'⟩ := ih later
    refine ⟨grows.trans grows', fun count member same => ?_⟩
    rcases List.mem_cons.mp member with here | there
    · exact short count here.symm (by omega)
    · exact short' count there (by omega)

/-! ## Whole commands -/

theorem length_written (cmds : List MiniKvmStatusCommand) :
    (written cmds).length = commandSize * cmds.length := by
  simp [written, List.length_flatMap, Nat.mul_comm]

/-- The first half of `Framed`. -/
def Split (cmds : List MiniKvmStatusCommand) (c : Conn n) : Prop :=
  ∃ handled rest, cmds = handled ++ rest ∧ c.passed = handled.map some ∧ c.unread = written rest

theorem split_step {e : ConnEvent n} (counted : Counted c) (split : Split cmds c)
    (whole : ∀ count, e = .recv count → count = commandSize) (h : connStep c e = some t) :
    Split cmds t := by
  obtain ⟨handled, rest, all, passed, unread⟩ := split
  cases conn_cases h with
  | recv phase at_ some_ most there received decoded next goes =>
    cases whole _ rfl
    rw [unread, length_written] at there
    obtain ⟨cmd, rest, rfl⟩ : ∃ cmd later, rest = cmd :: later := by
      cases rest with
      | nil => simp at there; exact absurd there (by decide)
      | cons cmd later => exact ⟨cmd, later, rfl⟩
    have first : c.unread.take commandSize = encodeCommand cmd := by
      rw [unread]
      exact List.take_left' (length_encodeCommand cmd)
    have later : c.unread.drop commandSize = written rest := by
      rw [unread]
      exact List.drop_left' (length_encodeCommand cmd)
    have filled : overwrite c.buffer (encodeCommand cmd) = encodeCommand cmd :=
      overwrite_of_length (by rw [length_encodeCommand, counted.buffer])
    refine ⟨handled ++ [cmd], rest, by simp [all], ?_, ?_⟩
    · rw [next]
      simp [passed, decoded, received, first, filled, decodeCommand_encodeCommand]
    · rw [next]
      exact later
  | endOfStream phase all' at_ => exact ⟨handled, rest, all, passed, unread⟩
  | reply phase at_ back => exact ⟨handled, rest, all, passed, unread⟩
  | inner phase same => exact ⟨handled, rest, all, passed, unread⟩

theorem invariants_run {events : List (ConnEvent n)} (counted : Counted c) (split : Split cmds c)
    (whole : ∀ count, .recv count ∈ events → count = commandSize)
    (reaches : (connection n).run c events = some t) : Counted t ∧ Split cmds t := by
  induction events generalizing c with
  | nil =>
    cases reaches
    exact ⟨counted, split⟩
  | cons e rest ih =>
    obtain ⟨u, first, later⟩ := (connection n).run_cons.mp reaches
    refine ih (counted_step counted first) (split_step counted split ?_ first) ?_ later
    · rintro count rfl
      exact whole count List.mem_cons_self
    · exact fun count member => whole count (List.mem_cons_of_mem _ member)

theorem framed_of_split (counted : Counted c) (split : Split cmds c) : Framed cmds c := by
  refine ⟨split, counted.replies, fun closed => ?_⟩
  obtain ⟨handled, rest, all, passed, unread⟩ := split
  have nothing : rest = [] := by
    have length := length_written rest
    rw [← unread, counted.closed closed] at length
    exact List.eq_nil_of_length_eq_zero (by simpa [commandSize] using length.symm)
  have idle : ¬ InHand c := by simp [InHand, closed]
  have replies := counted.replies
  rw [if_neg idle] at replies
  subst nothing
  rw [List.append_nil] at all
  rw [all]
  exact ⟨passed, by simpa [passed] using replies⟩

theorem owed_of_framed (framed : Framed cmds c) : owed c = commandSize * cmds.length := by
  obtain ⟨handled, rest, all, passed, unread⟩ := framed.passed
  rw [owed, unread, length_written, passed, all, List.length_map, List.length_append, Nat.mul_add]
  omega

/-- At the end of every run over a connection the commands written are framed exactly where every recv
of it has returned a whole command. -/
theorem framed_iff_whole (cmds : List MiniKvmStatusCommand) (c final : Conn n)
    (events : List (ConnEvent n)) (starts : Starts cmds c)
    (reaches : (connection n).run c events = some final) :
    Framed cmds final ↔ ∀ count, .recv count ∈ events → count = commandSize := by
  constructor
  · intro framed count member
    refine (owed_run reaches).2 count member ?_
    rw [owed_of_framed framed, owed, starts.unread, starts.passed, length_written]
    simp
  · intro whole
    obtain ⟨counted, split⟩ := invariants_run starts.counted
      ⟨[], cmds, rfl, starts.passed, starts.unread⟩ whole reaches
    exact framed_of_split counted split

/-! ## Two ways to cut a stream -/

/-- The connection of a client that has written these commands to a running VM of one vcpu. -/
def accepted (cmds : List MiniKvmStatusCommand) : Conn 1 where
  server := { Server.init 1 with
    kvm := { (Server.init 1).kvm with state := .running }
    main := .receiving
    vcpus := fun _ => .inRun }
  buffer := .replicate commandSize 0
  unread := written cmds
  passed := []
  replies := 0
  phase := .serving

theorem accepted_starts (cmds : List MiniKvmStatusCommand) : Starts cmds (accepted cmds) :=
  ⟨rfl, rfl, List.length_replicate, rfl, rfl, rfl⟩

/-- The reply to a SHOW_STATE, step by step. -/
def answer : List (ConnEvent 1) := [.inner .main, .inner .main, .inner .main, .reply]

def showState : MiniKvmStatusCommand := { type := .showState }

theorem whole_framed : ∃ final,
    (connection 1).run (accepted [showState]) (.recv commandSize :: answer) = some final ∧
      Framed [showState] final := by
  obtain ⟨final, reaches⟩ : ∃ final,
      (connection 1).run (accepted [showState]) (.recv commandSize :: answer) = some final :=
    Option.isSome_iff_exists.mp (by decide)
  refine ⟨final, reaches, ?_⟩
  refine (framed_iff_whole [showState] (accepted [showState]) final (.recv commandSize :: answer)
    (accepted_starts _) reaches).mpr fun count member => ?_
  simpa [answer] using member

/-- The first half of a SHOW_STATE is passed on as one, and the zeros behind it as a NONE. -/
theorem half_not_framed : ¬ ∀ (cmds : List MiniKvmStatusCommand) (c final : Conn 1)
    (events : List (ConnEvent 1)), Starts cmds c → (connection 1).run c events = some final →
    Framed cmds final := by
  intro claimed
  obtain ⟨final, reaches⟩ : ∃ final, (connection 1).run (accepted [showState])
      ((.recv 28 :: answer) ++ [.recv 28, .inner .main, .inner .main, .reply, .endOfStream]) =
        some final :=
    Option.isSome_iff_exists.mp (by decide)
  have framed := claimed _ _ final _ (accepted_starts _) reaches
  have whole := (framed_iff_whole _ _ _ _ (accepted_starts _) reaches).mp framed
  exact absurd (whole 28 (by simp)) (by decide)

end MiniKvm.Guarantees.CommandFraming
