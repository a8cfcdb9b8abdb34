import MiniKvm.Lib.Resources
import MiniKvm.Source.SetupKvm

/-!
# The stages of mini_kvm_run

mini_kvm_run with all it calls (commands/run.c, kvm/kvm.c, ipc/ipc.c), as far as descriptors, mappings
and return values go. Which calls succeed is a parameter; descriptors are the lowest that are free, and
mappings go where nothing is mapped. The joins of mini_kvm_clean_kvm come back, and rmrf closes what it
opens.
-/
namespace MiniKvm.Source.RunStages
open Lib.Resources SetupKvm RunArgs

inductive Resource where
  | fd (n : Nat)
  | mapping (addr : Nat)
  deriving DecidableEq, Repr

def Resource.fd? : Resource → Option Nat
  | .fd n => some n
  | .mapping _ => none

def Resource.mapping? : Resource → Option Nat
  | .fd _ => none
  | .mapping addr => some addr

/-! ## System calls on descriptors and mappings -/

namespace Descriptors

variable (t : Table Resource)

def lowestFd : Nat := lowestFree (t.live.filterMap Resource.fd?)

/-- Not NULL. -/
def freshAddr : Nat := lowestFree (0 :: t.live.filterMap Resource.mapping?)

/-- open, openat, socket, accept and the ioctls that create a descriptor. -/
def openFd (ok : Bool) : Int × Table Resource :=
  if ok then (lowestFd t, t.acquire (.fd (lowestFd t))) else (-1, t)

/-- -1 is MAP_FAILED. -/
def mmap (ok : Bool) : Int × Table Resource :=
  if ok then (freshAddr t, t.acquire (.mapping (freshAddr t))) else (-1, t)

def close (fd : Int) : Table Resource := if fd < 0 then t else t.release (.fd fd.toNat)

def munmap (addr : Int) : Table Resource := if addr < 0 then t else t.release (.mapping addr.toNat)

end Descriptors

open Descriptors

/-! ## State -/

structure VCpu where
  fd : Int
  kvmRun : Int
  deriving DecidableEq, Repr

/-- The fields of Kvm that mini_kvm_clean_kvm reads, and `sock`, which it does not. `mem` is 0 for NULL;
of `name` only matters whether it is set. -/
structure Kvm where
  name : Option (List Char)
  fsFd : Int
  kvmFd : Int
  vmFd : Int
  mem : Int
  vcpus : List VCpu
  sock : Int
  deriving DecidableEq

/-- As calloc leaves it. -/
def Kvm.zero : Kvm := ⟨none, 0, 0, 0, 0, [], 0⟩

/-- What mini_kvm_run goes through, each with a result of its own. -/
inductive Stage where
  | parseArgs | setupKvm | addVcpu | configurePaging | loadKernel | initFilesystem | createSocket
  | startVm
  deriving DecidableEq, Repr

structure Proc where
  kvm : Kvm
  table : Table Resource
  stages : List (Stage × Int32)
  deriving DecidableEq

def Proc.did (p : Proc) (stage : Stage) (ret : MiniKVMError) : Proc :=
  { p with stages := p.stages ++ [(stage, ret.code)] }

/-! ## kvm.c -/

/-- What the kernel answers where the calls are to come out as `wants` says: a new descriptor or
mapping is one that is free. -/
def granted (t : Table Resource) (wants : SysCall → Answer) : SysCall → Answer
  | .openKvm => if (wants .openKvm).val < 0 then Answer.failed else Answer.of (lowestFd t)
  | .createVm =>
    if (wants .createVm).val < 0 then Answer.failed
    else Answer.of (lowestFd (t.acquire (.fd (lowestFd t))))
  | .mmap => if (wants .mmap).val = -1 then Answer.failed else Answer.of (freshAddr t)
  | call => wants call

/-- What a call of mini_kvm_setup_kvm adds to the table. -/
def acquireFrom (t : Table Resource) : SysCall × Int → Table Resource
  | (.openKvm, r) | (.createVm, r) => if r < 0 then t else t.acquire (.fd r.toNat)
  | (.mmap, r) => if r = -1 then t else t.acquire (.mapping r.toNat)
  | _ => t

def setupKvm (wants : SysCall → Answer) (intel : Bool) (memSize : UInt64) (p : Proc) :
    MiniKVMError × Proc :=
  let s := miniKvmSetupKvm (granted p.table wants) intel memSize
  (s.ret, { p with
    kvm := { p.kvm with kvmFd := s.kvmFd, vmFd := s.vmFd, mem := s.mem }
    table := s.issued.foldl acquireFrom p.table })

/-- Which calls of mini_kvm_add_vcpu succeed. -/
structure VcpuCalls where
  createVcpu : Bool
  mmapSize : Answer
  mmap : Bool
  setupVcpu : MiniKVMError

def miniKvmAddVcpu (calls : VcpuCalls) (p : Proc) : MiniKVMError × Proc :=
  let (fd, t) := openFd p.table calls.createVcpu
  if fd < 0 then (.failedVcpuCreation, { p with table := t })
  else if calls.mmapSize.val ≤ 0 then (.failedVcpuCreation, { p with table := t })
  else
    let (kvmRun, t) := mmap t calls.mmap
    if kvmRun = -1 then (.failedVcpuCreation, { p with table := t })
    else if calls.setupVcpu ≠ .success then (.failedVcpuCreation, { p with table := t })
    else
      (.success, { p with
        table := t
        kvm := { p.kvm with vcpus := p.kvm.vcpus ++ [⟨fd, kvmRun⟩] } })

/-- The loop of mini_kvm_run over `args.vcpu`. -/
def addVcpus (calls : Nat → VcpuCalls) : Nat → Proc → MiniKVMError × Proc
  | 0, p => (.success, p)
  | count + 1, p =>
    match miniKvmAddVcpu (calls p.kvm.vcpus.length) p with
    | (.success, p) => addVcpus calls count (p.did .addVcpu .success)
    | (e, p) => (e, p.did .addVcpu e)

def miniKvmCleanKvm (p : Proc) : Table Resource :=
  let t := p.kvm.vcpus.foldl (fun t vcpu => close (munmap t vcpu.kvmRun) vcpu.fd) p.table
  let t := if p.kvm.name.isSome then close t p.kvm.fsFd else t
  let t := if p.kvm.mem ≠ 0 then munmap t p.kvm.mem else t
  close (close t p.kvm.kvmFd) p.kvm.vmFd

/-! ## init_filesystem -/

/-- The calls of init_filesystem; `running` is `kill(pid, 0) == 0`. -/
structure FsCalls where
  (rootDir openDir fsExists oldPidfile running newPidfile : Bool)
  deriving DecidableEq, Repr

/-- The pidfile of an earlier run is opened, read and closed. -/
def readPidfile (calls : FsCalls) (t : Table Resource) : Bool × Table Resource :=
  if calls.fsExists then
    let (pidFile, t) := openFd t calls.oldPidfile
    if pidFile > 0 then (calls.running, close t pidFile) else (false, t)
  else (false, t)

def initFilesystem (calls : FsCalls) (p : Proc) : MiniKVMError × Proc :=
  let (rootDirFd, t) := openFd p.table calls.rootDir
  let (fsFd, t) := openFd t calls.openDir
  let kvm := { p.kvm with fsFd := fsFd }
  if fsFd < 0 then (.failedFsSetup, { p with kvm := kvm, table := close t rootDirFd })
  else
    let (running, t) := readPidfile calls t
    if running then (.failedFsSetup, { p with kvm := kvm, table := close t rootDirFd })
    else
      let (pidFile, t) := openFd t calls.newPidfile
      if pidFile < 0 then (.failedFsSetup, { p with kvm := kvm, table := close t rootDirFd })
      else (.success, { p with kvm := kvm, table := close (close t pidFile) rootDirFd })

/-! ## run_main_loop -/

structure SocketCalls where
  (socket bind listen : Bool)
  deriving DecidableEq, Repr

def miniKvmIpcCreateSocket (calls : SocketCalls) (p : Proc) : MiniKVMError × Proc :=
  let (sock, t) := openFd p.table calls.socket
  let kvm := { p.kvm with sock := sock }
  if sock < 0 then (.failedSocketCreation, { p with kvm := kvm, table := t })
  else if ¬ calls.bind then (.failedSocketCreation, { p with kvm := kvm, table := close t sock })
  else if ¬ calls.listen then (.failedSocketCreation, { p with kvm := kvm, table := close t sock })
  else (.success, { p with kvm := kvm, table := t })

/-- A command that is received, whether it finds the VM paused, and whether the standard output of its
client can be opened. -/
structure Served where
  cmd : MiniKvmStatusCommand
  paused : Bool
  stdoutOpens : Bool

/-- What accept returns, and the commands that are received until recv returns 0 or less. -/
inductive Accepted where
  | nobody
  | failed
  | connection (commands : List Served)

/-- One iteration: accept, whether SIGINT or SIGTERM has been caught, and what the commands and the
vcpu threads have made of `kvm->state`. -/
structure Round where
  accepted : Accepted
  caught : Bool
  state : VMState

/-- mini_kvm_status_handle_command: only DUMP_MEM opens something, and closes it. -/
def handleCommand (t : Table Resource) (served : Served) : Table Resource :=
  if served.cmd.type = .dumpMem ∧ served.paused then
    let (remoteStdoutfd, t) := openFd t served.stdoutOpens
    if remoteStdoutfd ≠ -1 then close t remoteStdoutfd else t
  else t

/-- Up to the test of the signals. A connection on descriptor 0 is taken for none. -/
def acceptRound (t : Table Resource) : Accepted → Table Resource
  | .nobody | .failed => t
  | .connection commands =>
    let (remoteSock, t) := openFd t true
    if remoteSock > 0 then commands.foldl handleCommand t else t

/-- The loop, with the `kvm->state` and the table at its end. -/
def mainLoop (state : VMState) (t : Table Resource) : List Round → VMState × Table Resource
  | [] => (state, t)
  | round :: rounds =>
    if state = .shutdown then (state, t)
    else
      mainLoop (if round.caught then .shutdown else round.state) (acceptRound t round.accepted) rounds

/-- How run_main_loop ends. -/
inductive LoopEnd where
  | failed (ret : MiniKVMError)
  /-- Through MINI_KVM_SHUTDOWN. -/
  | shutDown
  | serving
  deriving DecidableEq

/-- `first` is the `kvm->state` of the first test: a vcpu thread may have stopped the VM by then. -/
def runMainLoop (socket : SocketCalls) (start : MiniKVMError) (first : VMState) (rounds : List Round)
    (p : Proc) : LoopEnd × Proc :=
  match miniKvmIpcCreateSocket socket p with
  | (.success, p) =>
    let p := p.did .createSocket .success
    let p := p.did .startVm start
    if start ≠ .success then (.failed start, p)
    else
      let (state, t) := mainLoop first p.table rounds
      (if state = .shutdown then .shutDown else .serving, { p with table := t })
  | (e, p) => (.failed e, p.did .createSocket e)

/-! ## mini_kvm_run -/

structure RunCalls where
  /-- What run_parse_args returns. -/
  parse : Int32
  calloc : Bool
  intel : Bool
  setup : SysCall → Answer
  vcpu : Nat → VcpuCalls
  configurePaging : MiniKVMError
  loadKernel : MiniKVMError
  fs : FsCalls
  socket : SocketCalls
  start : MiniKVMError
  first : VMState
  rounds : List Round

/-- The stages up to load_kernel. -/
def initialise (calls : RunCalls) (args : MiniKvmRunArgs) (p : Proc) : MiniKVMError × Proc :=
  match setupKvm calls.setup calls.intel (.ofNat args.memSize) p with
  | (.success, p) =>
    match addVcpus calls.vcpu args.vcpu (p.did .setupKvm .success) with
    | (.success, p) =>
      let p := p.did .configurePaging calls.configurePaging
      if calls.configurePaging ≠ .success then (calls.configurePaging, p)
      else (calls.loadKernel, p.did .loadKernel calls.loadKernel)
    | (e, p) => (e, p)
  | (e, p) => (e, p.did .setupKvm e)

/-- init_filesystem for a VM that has a name. -/
def nameVm (fs : FsCalls) (name : Option (List Char)) (p : Proc) : MiniKVMError × Proc :=
  match name with
  | none | some [] => (.success, p)
  | some name =>
    let (ret, p) := initFilesystem fs { p with kvm := { p.kvm with name := some name } }
    (ret, p.did .initFilesystem ret)

inductive Ending where
  | returned (ret : Int32)
  /-- Still in the main loop. -/
  | serving
  /-- rmrf has been called with a null path. -/
  | crashed
  deriving DecidableEq

structure Run where
  ending : Ending
  proc : Proc
  /-- The main loop has been left through MINI_KVM_SHUTDOWN. -/
  shutDown : Bool

def Proc.cleaned (p : Proc) : Proc := { p with table := miniKvmCleanKvm p }

/-- From init_filesystem on, where `ret` stays what load_kernel has returned. -/
def serve (calls : RunCalls) (args : MiniKvmRunArgs) (p : Proc) : Run :=
  match nameVm calls.fs args.name p with
  | (.success, p) =>
    match runMainLoop calls.socket calls.start calls.first calls.rounds p with
    | (.serving, p) => ⟨.serving, p, false⟩
    | (left, p) =>
      -- `kvm->fs_path` is not set for an empty name
      if args.name = some [] then ⟨.crashed, p, decide (left = .shutDown)⟩
      else ⟨.returned MiniKVMError.success.code, p.cleaned, decide (left = .shutDown)⟩
  | (_, p) => ⟨.returned MiniKVMError.success.code, p.cleaned, false⟩

/-- Where the process has its three standard descriptors. -/
def Proc.start : Proc := ⟨.zero, .start [.fd 0, .fd 1, .fd 2], []⟩

def miniKvmRun (calls : RunCalls) (args : MiniKvmRunArgs) : Run :=
  let p := { Proc.start with stages := [(.parseArgs, calls.parse)] }
  if calls.parse ≠ 0 then ⟨.returned calls.parse, p, false⟩
  else if ¬ calls.calloc then ⟨.returned MiniKVMError.failedAllocation.code, p, false⟩
  else
    match initialise calls args p with
    | (.success, p) => serve calls args p
    | (e, p) => ⟨.returned e.code, p.cleaned, false⟩

end MiniKvm.Source.RunStages
