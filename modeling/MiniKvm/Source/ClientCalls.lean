import MiniKvm.Lib.LittleEndian
import MiniKvm.Source.Clients

/-!
# The system calls of a client

mini_kvm_ipc_connect and mini_kvm_ipc_send_cmd (ipc/ipc.c) with every outcome of socket, connect, send
and recv, and the four subcommands over them, from their call of mini_kvm_ipc_connect on. Each byte
that arrives is known by the reply it belongs to, so that `res` shows which bytes it really holds.
-/
namespace MiniKvm.Source.ClientCalls
open Lib Clients

/-- `sizeof(MiniKvmStatusCommand)`. -/
def commandSize : Nat := 56

/-- `sizeof(MiniKvmStatusResult)`: 16 bytes of header, 64 times kvm_regs and kvm_sregs, `state` and
its padding. -/
def resultSize : Nat := 16 + 64 * 144 + 64 * 312 + 8

/-- `offsetof(MiniKvmStatusResult, state)`. -/
def stateOffset : Nat := 16 + 64 * 144 + 64 * 312

/-- Byte `index` of the reply to command `command` of the connection, counted from 0. -/
structure Octet where
  (command index : Nat)
  deriving DecidableEq, Repr

/-- What send or recv returns: an error, or at most this many bytes. -/
inductive Count where
  | error
  | bytes (most : Nat)
  deriving DecidableEq, Repr

/-- The outcomes of the calls, those of send and recv by command, and the replies of the server. -/
structure Peer where
  /-- The descriptor, from 0 on. -/
  socket : Option Nat
  connect : Bool
  send : Nat → Count
  recv : Nat → Count
  reply : Nat → Nat → UInt8

/-- A return of mini_kvm_ipc_send_cmd. -/
structure Answer where
  command : Nat
  cmd : MiniKvmStatusCommand
  sent : Count
  ret : Int
  res : Nat → Option Octet

/-- `isOpen` is the kernel's view of the socket; `closes` counts the calls of close on it. A byte of
`res` that never arrived is `none`. -/
structure Client where
  isOpen : Bool
  closes : Nat
  commands : Nat
  inFlight : List Octet
  res : Nat → Option Octet
  answers : List Answer

/-! ## ipc.c -/

/-- A client with `MiniKvmStatusResult res = {0}`. -/
def Client.start (isOpen : Bool) : Client := ⟨isOpen, 0, 0, [], fun _ => none, []⟩

def Client.close (c : Client) : Client := { c with isOpen := false, closes := c.closes + 1 }

/-- What mini_kvm_ipc_connect returns, and leaves of the socket: after a failed connect it closes the
socket and returns its descriptor all the same. -/
def miniKvmIpcConnect (peer : Peer) : Int × Client :=
  match peer.socket with
  | none => (-1, .start false)
  | some fd => if peer.connect then (fd, .start true) else (fd, (Client.start true).close)

/-- The reply to a command, in order. -/
def replyOctets (command : Nat) : List Octet := (List.range resultSize).map fun i => ⟨command, i⟩

def Client.received (c : Client) (most : Nat) : Client :=
  let got := c.inFlight.take (min most resultSize)
  { c with
    inFlight := c.inFlight.drop (min most resultSize)
    res := fun j => got[j]?.or (c.res j) }

def Client.answered (c : Client) (cmd : MiniKvmStatusCommand) (sent : Count) (ret : Int) : Client :=
  { c with
    commands := c.commands + 1
    answers := c.answers ++ [⟨c.commands, cmd, sent, ret, c.res⟩] }

/-- `recv(..) < -1` never holds, so what recv returns plays no part. The server answers whatever
arrives of a command. -/
def miniKvmIpcSendCmd (peer : Peer) (cmd : MiniKvmStatusCommand) (c : Client) : Int × Client :=
  let sent := if c.isOpen then peer.send c.commands else .error
  match sent with
  | .error => (-1, c.answered cmd sent (-1))
  | .bytes count =>
    let c :=
      if count = 0 then c else { c with inFlight := c.inFlight ++ replyOctets c.commands }
    let c :=
      match peer.recv c.commands with
      | .error => c
      | .bytes most => c.received most
    (0, c.answered cmd sent 0)

/-! ## The subcommands -/

/-- The value of a byte of `res`. -/
def byteOf (peer : Peer) (res : Nat → Option Octet) (j : Nat) : UInt8 :=
  match res j with
  | none => 0
  | some o => peer.reply o.command o.index

/-- `res.state`, `none` where it is none of the enumerators. -/
def stateOf (peer : Peer) (res : Nat → Option Octet) : Option VMState :=
  match LittleEndian.decode ((List.range 4).map fun j => byteOf peer res (stateOffset + j)) with
  | 0 => some .paused
  | 1 => some .running
  | 2 => some .shutdown
  | _ => none

/-- What a subcommand does with its socket; each ends at `close_socket`. -/
inductive Operation where
  /-- mini_kvm_ipc_send_cmd, and `goto close_socket` when it fails. -/
  | sendCmd (cmd : MiniKvmStatusCommand)
  | closeIf (states : List VMState)

def operations : Program → List Operation
  | .pause =>
    [.sendCmd { type := .showState }, .closeIf [.paused, .shutdown], .sendCmd { type := .pause }]
  | .resume =>
    [.sendCmd { type := .showState }, .closeIf [.running, .shutdown], .sendCmd { type := .resume }]
  | .shutdown => [.sendCmd { type := .shutdown }]
  | .status args => args.cmds.map fun type => .sendCmd (statusBuildCommand args type)

/-- The operations without outcomes are those of the client processes. -/
def Operation.actions : Operation → List Action
  | .sendCmd cmd => Clients.miniKvmIpcSendCmd cmd
  | .closeIf states => [.closeIf states]

theorem actions_operations (program : Program) :
    (operations program).flatMap Operation.actions = program.actions := by
  cases program with
  | status args =>
    simp only [operations, Program.actions, miniKvmStatus, List.flatMap_map, Operation.actions]
  | _ => rfl

def perform (peer : Peer) : List Operation → Client → Client
  | [], c => c.close
  | .sendCmd cmd :: rest, c =>
    match miniKvmIpcSendCmd peer cmd c with
    | (ret, c) => if ret ≠ 0 then c.close else perform peer rest c
  | .closeIf states :: rest, c =>
    if ∃ v ∈ states, stateOf peer c.res = some v then c.close else perform peer rest c

/-- A subcommand, from its call of mini_kvm_ipc_connect on. -/
def subcommand (peer : Peer) (program : Program) : Client :=
  match miniKvmIpcConnect peer with
  | (sock, c) => if sock < 0 then c else perform peer (operations program) c

end MiniKvm.Source.ClientCalls
