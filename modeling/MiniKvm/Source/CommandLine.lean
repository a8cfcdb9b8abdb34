import MiniKvm.Source.ClientCalls
import MiniKvm.Source.RunArgs
import MiniKvm.Source.SocketPaths
import MiniKvm.Source.StatusArgs
import MiniKvm.Source.VmFiles

/-!
# The command line

main and handle_command (main.c), the parsers of the pause, resume and shutdown commands, and the
commands as whole processes, from their argument vector to what they return (commands/*.c). A process
is known by what it returns, the address it asks for, and its calls of mini_kvm_ipc_send_cmd.
-/
namespace MiniKvm.Source.CommandLine
open Lib Lib.Getopt ClientCalls VmFiles

/-! ## pause_parse_args, resume_parse_args and shutdown_parse_args -/

/-- `MiniKvmPauseArgs`, `MiniKvmResumeArgs` or `MiniKvmShutdownArgs`, with `ret`. -/
structure NameArgs where
  name : Option (List Char)
  ret : MiniKVMError
  deriving DecidableEq

/-- `opts_def` and the option string, which are the same in the three files. -/
def optsDef : Spec where
  optstring := "n:h".toList
  longopts := [⟨"name".toList, .required, 'n'⟩, ⟨"help".toList, .none, 'h'⟩]

/-- The loop, which stops on MINI_KVM_ARGS_FAILED. -/
def handleAll (args : NameArgs) : List Event → NameArgs
  | [] => args
  | .bad :: _ => { args with ret := .argsFailed }
  | .option c optarg :: rest =>
    if c = 'n' then handleAll { args with name := some (StatusArgs.copiedName (optarg.getD [])) } rest
    else if c = 'h' then { args with ret := .argsFailed }
    else handleAll args rest

def pauseParseArgs (argv : List (List Char)) : NameArgs :=
  handleAll ⟨none, .success⟩ (getoptLong optsDef argv.tail)

def resumeParseArgs (argv : List (List Char)) : NameArgs :=
  handleAll ⟨none, .success⟩ (getoptLong optsDef argv.tail)

def shutdownParseArgs (argv : List (List Char)) : NameArgs :=
  handleAll ⟨none, .success⟩ (getoptLong optsDef argv.tail)

/-! ## The commands -/

/-- What a process meets: the directories of the VMs, the pids that are alive, the outcomes of its
system calls, `errno` at its start, its pid, and all that mini_kvm_run finds. -/
structure World where
  dirs : List Char → VmDir
  kill : Int32 → Bool
  peer : Peer
  errno : Int
  pid : Int32
  files : List Char → Option (List UInt8)
  run : RunStages.RunCalls

/-- What a process returns, the address it asks mini_kvm_ipc_connect for, and its calls of
mini_kvm_ipc_send_cmd. -/
structure Exit where
  ret : Int32
  address : Option (List Char)
  answers : List Answer

/-- A process that does not get to mini_kvm_ipc_connect. -/
def Exit.early (ret : MiniKVMError) : Exit := ⟨ret.code, none, []⟩

/-- mini_kvm_pause, mini_kvm_resume and mini_kvm_shutdown, behind their parser: `ret` stays what it is,
whatever comes of the socket. -/
def clientCommand (w : World) (program : Clients.Program) (args : NameArgs) : Exit :=
  if args.ret ≠ .success then .early args.ret
  else
    match args.name with
    | none => .early .success
    | some name =>
      if miniKvmCheckVm w.kill (w.dirs name) < 0 then .early .success
      else
        ⟨MiniKVMError.success.code, some (RunStages.ipcConnectPath name),
          (subcommand w.peer program).answers⟩

def miniKvmPause (w : World) (argv : List (List Char)) : Exit :=
  clientCommand w .pause (pauseParseArgs argv)

def miniKvmResume (w : World) (argv : List (List Char)) : Exit :=
  clientCommand w .resume (resumeParseArgs argv)

def miniKvmShutdown (w : World) (argv : List (List Char)) : Exit :=
  clientCommand w .shutdown (shutdownParseArgs argv)

/-- The loop over the commands of mini_kvm_status, from the `i`-th on; `none` where status_build_command
reads NULL or stores behind `mem_range`. -/
def sendCommands (w : World) (p : StatusArgs.Parsing) :
    Nat → Nat → Client → Option (MiniKVMError × Client)
  | 0, _, c => some (.success, c)
  | left + 1, i, c =>
    match StatusArgs.statusBuildCommand p i w.pid with
    | none => none
    | some built =>
      if ∃ store ∈ built.stores, 4 ≤ store.1 then none
      else
        match miniKvmIpcSendCmd w.peer built.cmd c with
        | (ret, c) =>
          if ret ≠ 0 then some (.statusCommandFailed, c) else sendCommands w p left (i + 1) c

/-- `none` where the parser does not return, or something is stored behind an array. -/
def miniKvmStatus (fuel : Nat) (w : World) (argv : List (List Char)) : Option Exit :=
  let p := StatusArgs.statusParseArgs fuel argv (StatusArgs.zeroed w.errno)
  if p.hung ∨ ∃ write ∈ p.writes, StatusArgs.commandCount ≤ write.1 then none
  else if p.ret ≠ .success then some (.early p.ret)
  else
    match p.name with
    | none => some (.early .success)
    | some name =>
      if miniKvmCheckVm w.kill (w.dirs name) < 0 then some (.early .success)
      else
        let address := RunStages.ipcConnectPath name
        match miniKvmIpcConnect w.peer with
        | (sock, c) =>
          if sock < 0 then some ⟨MiniKVMError.internalError.code, address, c.answers⟩
          else (sendCommands w p p.cmdCount 0 c).map fun sent =>
            ⟨sent.1.code, address, sent.2.answers⟩

/-- `none` where run_parse_args crashes, or the process does not return. -/
def miniKvmRun (w : World) (argv : List (List Char)) : Option Exit :=
  match RunArgs.runParseArgs w.files argv (RunArgs.zeroed w.errno) with
  | none => none
  | some p =>
    match (RunStages.miniKvmRun { w.run with parse := p.ret } p.args).ending with
    | .returned ret => some ⟨ret, none, []⟩
    | _ => none

/-! ## main -/

inductive Subcommand where
  | pause | resume | run | status | shutdown
  deriving DecidableEq, Repr

/-- `commands`, up to NULL. -/
def commands : List (List Char × Subcommand) :=
  [("pause".toList, .pause), ("resume".toList, .resume), ("run".toList, .run),
    ("status".toList, .status), ("shutdown".toList, .shutdown)]

def Subcommand.process (fuel : Nat) (w : World) (argv : List (List Char)) : Subcommand → Option Exit
  | .pause => some (miniKvmPause w argv)
  | .resume => some (miniKvmResume w argv)
  | .run => miniKvmRun w argv
  | .status => miniKvmStatus fuel w argv
  | .shutdown => some (miniKvmShutdown w argv)

/-- The first command of the table whose name the word starts with: strncmp compares as many
characters as the name has. -/
def findCommand (table : List (List Char × Subcommand)) (word : List Char) : Option Subcommand :=
  (table.find? fun entry => entry.1.isPrefixOf word).map Prod.snd

def handleCommand (fuel : Nat) (w : World) (argv : List (List Char)) : Option Exit :=
  match findCommand commands (argv.headD []) with
  | some command => command.process fuel w argv
  | none => some (.early .unrecognizedCommand)

/-- `argv` with the name of the program. -/
def main (fuel : Nat) (w : World) (argv : List (List Char)) : Option Exit :=
  match argv with
  | [] | [_] => some (.early .success)
  | _ :: word :: rest =>
    if "-h".toList.isPrefixOf word ∨ "--help".toList.isPrefixOf word then some (.early .success)
    else handleCommand fuel w (word :: rest)

end MiniKvm.Source.CommandLine
