import MiniKvm.Lib.LittleEndian
import MiniKvm.Source.Clients
import MiniKvm.Source.ServerSteps

/-!
# A connection, byte by byte

The loop of run_main_loop over one accepted socket. The client has written its bytes; a recv returns
as many of them as the socket likes, up to the size of a command, into a buffer that is kept from one
recv to the next. The handlers and the other threads are those of the server.
-/
namespace MiniKvm.Source.Connection
open Lib Lib.LittleEndian Clients Server

/-! ## MiniKvmStatusCommand -/

/-- `sizeof(MiniKvmStatusCommand)`, with the padding behind `type` and behind `pid`. -/
def commandSize : Nat := 56

/-- The enumerator with a number; `handlers` has no entry for the others. -/
def commandType : Nat → Option CommandType
  | 0 => some .none
  | 1 => some .pause
  | 2 => some .resume
  | 3 => some .shutdown
  | 4 => some .showState
  | 5 => some .showRegs
  | 6 => some .dumpMem
  | _ => none

/-- The fields in order, with their widths; the padding is zero. -/
def commandFields (cmd : MiniKvmStatusCommand) : List (Nat × Nat) :=
  [(4, cmd.type.ctorIdx), (4, 0), (8, cmd.vcpus.toNat), (8, cmd.memRange[0]!.toUInt64.toNat),
    (8, cmd.memRange[1]!.toUInt64.toNat), (8, cmd.memRange[2]!.toUInt64.toNat),
    (8, cmd.memRange[3]!.toUInt64.toNat), (4, cmd.pid.toUInt32.toNat), (4, 0)]

def encodeCommand (cmd : MiniKvmStatusCommand) : List UInt8 := encodeAll (commandFields cmd)

def decodeCommand (bytes : List UInt8) : Option MiniKvmStatusCommand :=
  (commandType (field bytes 0 4)).map fun type =>
    { type
      vcpus := .ofNat (field bytes 8 8)
      memRange := #v[(UInt64.ofNat (field bytes 16 8)).toInt64,
        (UInt64.ofNat (field bytes 24 8)).toInt64, (UInt64.ofNat (field bytes 32 8)).toInt64,
        (UInt64.ofNat (field bytes 40 8)).toInt64]
      pid := (UInt32.ofNat (field bytes 48 4)).toInt32 }

@[simp] theorem length_encodeCommand (cmd : MiniKvmStatusCommand) :
    (encodeCommand cmd).length = commandSize :=
  length_encodeAll _

theorem commandType_ctorIdx (type : CommandType) : commandType type.ctorIdx = some type := by
  cases type <;> rfl

theorem decodeCommand_encodeCommand (cmd : MiniKvmStatusCommand) :
    decodeCommand (encodeCommand cmd) = some cmd := by
  have at_ (before after : List (Nat × Nat)) {width v : Nat} (h : v < 256 ^ width)
      (fields : commandFields cmd = before ++ (width, v) :: after) :
      field (encodeCommand cmd) (before.map Prod.fst).sum width = v := by
    rw [encodeCommand, fields]
    exact field_encodeAll before after h
  have small (v : UInt64) : v.toNat < 256 ^ 8 := v.toNat_lt
  have type : field (encodeCommand cmd) 0 4 = cmd.type.ctorIdx :=
    at_ [] _ (by cases cmd.type <;> decide) rfl
  have vcpus : field (encodeCommand cmd) 8 8 = cmd.vcpus.toNat :=
    at_ ((commandFields cmd).take 2) _ (small _) rfl
  have start : field (encodeCommand cmd) 16 8 = cmd.memRange[0].toUInt64.toNat :=
    at_ ((commandFields cmd).take 3) _ (small _) rfl
  have end_ : field (encodeCommand cmd) 24 8 = cmd.memRange[1].toUInt64.toNat :=
    at_ ((commandFields cmd).take 4) _ (small _) rfl
  have wordSize : field (encodeCommand cmd) 32 8 = cmd.memRange[2].toUInt64.toNat :=
    at_ ((commandFields cmd).take 5) _ (small _) rfl
  have bytesPerLine : field (encodeCommand cmd) 40 8 = cmd.memRange[3].toUInt64.toNat :=
    at_ ((commandFields cmd).take 6) _ (small _) rfl
  have pid : field (encodeCommand cmd) 48 4 = cmd.pid.toUInt32.toNat :=
    at_ ((commandFields cmd).take 7) _ cmd.pid.toUInt32.toNat_lt rfl
  have range : #v[cmd.memRange[0], cmd.memRange[1], cmd.memRange[2], cmd.memRange[3]] =
      cmd.memRange := by
    ext i bound
    match i, bound with
    | 0, _ | 1, _ | 2, _ | 3, _ => rfl
  -- The rewriting below would evaluate the bytes of the command otherwise.
  generalize encodeCommand cmd = bytes at type vcpus start end_ wordSize bytesPerLine pid ⊢
  simp only [decodeCommand, type, vcpus, start, end_, wordSize, bytesPerLine, pid,
    commandType_ctorIdx, Option.map_some, UInt64.ofNat_toNat, UInt32.ofNat_toNat,
    Int64.toInt64_toUInt64, Int32.toInt32_toUInt32, range]

/-! ## The loop over recv -/

inductive Phase where
  | serving
  /-- recv has returned 0. -/
  | closed
  /-- The handler of a command was looked up behind the end of `handlers`. -/
  | crashed
  deriving DecidableEq, Repr

/-- `buffer` is `cmd` of run_main_loop; `passed` are its values at the calls of
mini_kvm_status_handle_command, oldest first. -/
structure Conn (n : Nat) where
  server : State n
  buffer : List UInt8
  unread : List UInt8
  passed : List (Option MiniKvmStatusCommand)
  replies : Nat
  phase : Phase

inductive ConnEvent (n : Nat) where
  | recv (count : Nat)
  | endOfStream
  | reply
  /-- A step of the server away from its sockets. -/
  | inner (e : Event n)

section Steps

variable {n : Nat}

/-- A recv of `count` bytes, and the call of mini_kvm_status_handle_command. -/
def recvStep (c : Conn n) (count : Nat) : Option (Conn n) :=
  if c.server.main = .receiving ∧ 0 < count ∧ count ≤ commandSize ∧ count ≤ c.unread.length then
    let buffer := overwrite c.buffer (c.unread.take count)
    let cmd := decodeCommand buffer
    let c := { c with buffer, unread := c.unread.drop count, passed := c.passed ++ [cmd] }
    match cmd with
    | none => some { c with phase := .crashed }
    | some cmd => (step c.server (.recv (some cmd))).map fun server => { c with server }
  else none

def connStep (c : Conn n) : ConnEvent n → Option (Conn n)
  | .recv count => if c.phase = .serving then recvStep c count else none
  | .endOfStream =>
    if c.phase = .serving ∧ c.unread = [] then
      (step c.server (.recv none)).map fun server => { c with server, phase := .closed }
    else none
  | .reply =>
    if c.phase = .serving then
      (step c.server .reply).map fun server => { c with server, replies := c.replies + 1 }
    else none
  | .inner e =>
    if c.phase = .crashed ∨ onSocket e then none
    else (step c.server e).map fun server => { c with server }

def connection (n : Nat) : Lib.Lts.System (Conn n) (ConnEvent n) Unit :=
  ⟨connStep, fun _ _ => none⟩

/-! ## Inversion -/

/-- What happens on a connection. -/
inductive ConnCases (c : Conn n) : ConnEvent n → Conn n → Prop where
  | recv {count : Nat} {buffer : List UInt8} {passed : Option MiniKvmStatusCommand} {t : Conn n}
    (phase : c.phase = .serving) (at_ : c.server.main = .receiving) (some_ : 0 < count)
    (most : count ≤ commandSize) (there : count ≤ c.unread.length)
    (received : buffer = overwrite c.buffer (c.unread.take count))
    (decoded : passed = decodeCommand buffer)
    (next : t = ⟨t.server, buffer, c.unread.drop count, c.passed ++ [passed], c.replies, t.phase⟩)
    (goes : passed = none ∧ t.phase = .crashed ∨ t.phase = .serving ∧ t.server.main ≠ .receiving) :
    ConnCases c (.recv count) t
  | endOfStream {server : State n} (phase : c.phase = .serving) (all : c.unread = [])
    (at_ : c.server.main = .receiving) :
    ConnCases c .endOfStream { c with server, phase := .closed }
  | reply {server : State n} (phase : c.phase = .serving) (at_ : c.server.main = .replying)
    (back : server.main = .receiving) :
    ConnCases c .reply { c with server, replies := c.replies + 1 }
  | inner {e : Event n} {server : State n} (phase : c.phase ≠ .crashed)
    (same : server.main = .receiving ↔ c.server.main = .receiving) :
    ConnCases c (.inner e) { c with server }

/-- Away from its sockets the main thread neither begins nor ends waiting for a command. -/
theorem receiving_iff_of_inner {s t : State n} {e : Event n} (away : onSocket e = false)
    (h : step s e = some t) : t.main = .receiving ↔ s.main = .receiving := by
  cases step_cases h with
  | @op _ task ret op rest _ at_ effect next event =>
    rw [next, at_]
    rcases Op.next_cases s task ret rest op with ⟨goes, -, -⟩ | ⟨-, -, goes⟩ | ⟨-, -, goes⟩ <;>
      simp [goes]
  | @finish task ret at_ =>
    rw [at_]
    rcases finish_main s ret task with goes | goes | goes <;> simp [goes]
  | leave at_ down => simp [at_]
  | loop at_ up => simp [at_]
  | createFails at_ => simp [at_]
  | queryFails at_ query => simp [at_]
  | accept connected at_ => cases away
  | recv cmd at_ => cases away
  | recvEnd at_ => cases away
  | reply at_ => cases away
  | caught at_ => simp [at_]
  | uncaught at_ => simp [at_]
  | kills => rfl
  | vcpu side => rw [side.frame.main]

theorem conn_cases {c t : Conn n} {e : ConnEvent n} (h : connStep c e = some t) :
    ConnCases c e t := by
  cases e with
  | recv count =>
    simp only [connStep] at h
    split at h
    · next phase =>
      unfold recvStep at h
      split at h
      · next guards =>
        obtain ⟨at_, some_, most, there⟩ := guards
        dsimp only at h
        split at h
        · next undecoded =>
          cases h
          exact .recv phase at_ some_ most there rfl rfl rfl (.inl ⟨undecoded, rfl⟩)
        · next cmd decoded =>
          obtain ⟨server, goes, rfl⟩ := Option.map_eq_some_iff.mp h
          obtain ⟨-, -, rfl⟩ := recv_eq_some.mp goes
          exact .recv phase at_ some_ most there rfl rfl rfl (.inr ⟨phase, by simp⟩)
      · cases h
    · cases h
  | endOfStream =>
    simp only [connStep] at h
    split at h
    · next guards =>
      obtain ⟨server, goes, rfl⟩ := Option.map_eq_some_iff.mp h
      exact .endOfStream guards.1 guards.2 (recvEnd_eq_some.mp goes).2.1
    · cases h
  | reply =>
    simp only [connStep] at h
    split at h
    · next phase =>
      obtain ⟨server, goes, rfl⟩ := Option.map_eq_some_iff.mp h
      obtain ⟨-, at_, rfl⟩ := reply_eq_some.mp goes
      exact .reply phase at_ rfl
    · cases h
  | inner e =>
    simp only [connStep] at h
    split at h
    · cases h
    · next guards =>
      rw [not_or] at guards
      obtain ⟨server, goes, rfl⟩ := Option.map_eq_some_iff.mp h
      exact .inner guards.1 (receiving_iff_of_inner (by simpa using guards.2) goes)

end Steps

end MiniKvm.Source.Connection
