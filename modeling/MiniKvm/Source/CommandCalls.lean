import MiniKvm.Source.Connection
import MiniKvm.Source.DumpMem
import MiniKvm.Source.ServerSteps

/-!
# One call of mini_kvm_status_handle_command

The call from its beginning to its return, for whatever bytes have come from the socket, with the
vcpus going on meanwhile. Its accesses and their steps are those of the server; here the dump of
DUMP_MEM runs too, and the system calls answer as the host says.
-/
namespace MiniKvm.Source.CommandCalls
open Lib Lib.Lts Lib.Sync Server DumpMem

/-- The fields of `MiniKvmStatusCommand`, where `type` need not be an enumerator. -/
structure RawCommand where
  type : UInt32
  vcpus : UInt64
  memRange : Vector Int64 4
  pid : Int32
  deriving DecidableEq

/-- The command that `handlers` has an entry for. -/
def RawCommand.command? (raw : RawCommand) : Option MiniKvmStatusCommand :=
  (Connection.commandType raw.type.toNat).map fun type =>
    { type, vcpus := raw.vcpus, memRange := raw.memRange, pid := raw.pid }

/-- What the system calls answer: whether the standard output of a process can be opened, and the
registers of a vcpu be read; and whether log_log, which reports where they cannot, comes back. -/
structure Host (n : Nat) where
  memSize : Int64
  opens : Int32 → Bool
  regs : Fin n → Bool
  logs : Bool

/-- What comes of a dump: it ends, a signal ends it, by a division by zero or a byte outside of guest
memory, or it has not come to its end within the fuel. -/
inductive DumpEnd where
  | done | crashed | outOfFuel
  deriving DecidableEq, Repr

section Calls

variable {n : Nat} (fuel : Nat) (host : Host n)

/-- mini_kvm_dump_mem on the arguments of the command. -/
def dumpEnd (cmd : MiniKvmStatusCommand) : DumpEnd :=
  match miniKvmDumpMem fuel host.memSize (rangeStart cmd) (rangeEnd host.memSize cmd)
    (rangeWordSize cmd) (rangeBytesPerLine cmd) with
  | .divides => .crashed
  | .outOfFuel => .outOfFuel
  | .done reads =>
    if ∀ r ∈ reads, (r.toNat : Int) < host.memSize.toInt then .done else .crashed

/-- The system call of the access is answered; the other accesses make none that can fail. -/
def answers (cmd : MiniKvmStatusCommand) : Op n → Bool
  | .getRegs i => host.regs i
  | .dumpMem => host.opens cmd.pid
  | _ => true

/-- What of the server's events the host makes of the next access. -/
def permits (s : State n) (e : Event n) : Bool :=
  match e, s.main with
  | .main, .exec _ _ (.getRegs i :: _) => host.regs i
  | .fails, .exec _ _ (.getRegs i :: _) => !host.regs i && host.logs
  | .main, .exec (.command cmd) _ (.dumpMem :: _) =>
    host.opens cmd.pid && dumpEnd fuel host cmd == .done
  | .fails, .exec (.command cmd) _ (.dumpMem :: _) => !host.opens cmd.pid && host.logs
  | .crash, .exec (.command cmd) _ (.dumpMem :: _) =>
    host.opens cmd.pid && dumpEnd fuel host cmd == .crashed
  | .main, .exec _ _ _ => true
  | .wake _, _ | .vcpu _, _ | .exit _ _ _, _ | .deliver _ _, _ => true
  | _, _ => false

def callStep (s : State n) (e : Event n) : Option (State n) :=
  if permits fuel host s e then step s e else none

def calls : System (State n) (Event n) Label := ⟨callStep fuel host, label⟩

end Calls

/-- A call has begun. -/
def begun {n : Nat} (cmd : MiniKvmStatusCommand) (s : State n) : State n :=
  { s with main := .exec (.command cmd) .success (Server.miniKvmStatusHandleCommand cmd) }

/-- The call begins; `none` where `handlers` is read behind its end. -/
def miniKvmStatusHandleCommand {n : Nat} (raw : RawCommand) (s : State n) : Option (State n) :=
  raw.command?.map fun cmd => begun cmd s

/-- The events of the main thread inside of a function. -/
def ofMain {n : Nat} : Event n → Bool
  | .main | .wake _ | .fails => true
  | _ => false

/-! ## A call is a part of a run of the server -/

section Runs

variable {n : Nat} {fuel : Nat} {host : Host n}

theorem callStep_eq_some {s t : State n} {e : Event n} :
    callStep fuel host s e = some t ↔ permits fuel host s e = true ∧ step s e = some t := by
  unfold callStep
  split <;> simp_all

theorem server_of_calls {s t : State n} {es : List (Event n)}
    (reaches : (calls fuel host).run s es = some t) : (system n).run s es = some t := by
  induction es generalizing s with
  | nil => exact reaches
  | cons e es ih =>
    obtain ⟨u, moves, rest⟩ := (calls fuel host).run_cons.mp reaches
    exact (system n).run_cons.mpr ⟨u, (callStep_eq_some.mp moves).2, ih rest⟩

/-- The server receives the command and gets as far as the call does. -/
theorem received_call {s u t : State n} {raw : RawCommand} {es : List (Event n)}
    (alive : s.killed = false) (at_ : s.main = .receiving)
    (begins : miniKvmStatusHandleCommand raw s = some u)
    (reaches : (calls fuel host).run u es = some t) :
    ∃ cmd, raw.command? = some cmd ∧ (system n).run s (.recv (some cmd) :: es) = some t := by
  obtain ⟨cmd, known, rfl⟩ := Option.map_eq_some_iff.mp begins
  refine ⟨cmd, known, (system n).run_cons.mpr ⟨_, ?_, server_of_calls reaches⟩⟩
  exact recv_eq_some.mpr ⟨alive, at_, rfl⟩

/-- The vcpus may do anything. -/
theorem callStep_of_vcpus {s : State n} {e : Event n} (of : ofVcpus e = true) :
    callStep fuel host s e = step s e := by
  refine if_pos ?_
  cases e <;> first | rfl | cases of

theorem ofVcpus_of_side {s t : State n} {e : Event n} {i : Fin n} (side : VcpuSide s i e t) :
    ofVcpus e = true := by
  cases side <;> rfl

/-- In the middle of the command, or past it. -/
def InCall (cmd : MiniKvmStatusCommand) (s : State n) : Prop :=
  (∃ rest, s.In (.command cmd) rest) ∨ s.main = .replying

theorem InCall.eq_of_exec {cmd : MiniKvmStatusCommand} {s : State n} {task : Task}
    {ret : MiniKVMError} {rest : List (Op n)} (inCall : InCall cmd s)
    (at_ : s.main = .exec task ret rest) : task = .command cmd := by
  rcases inCall with ⟨rest', ret', here⟩ | past
  · rw [at_] at here
    cases here
    rfl
  · simp [at_] at past

/-- What a step of a call is. -/
inductive CallCases (host : Host n) (cmd : MiniKvmStatusCommand) (s : State n) (e : Event n)
    (t : State n) : Prop where
  | op {ret : MiniKVMError} {op : Op n} {rest : List (Op n)}
    (at_ : s.main = .exec (.command cmd) ret (op :: rest)) (effect : op.Effect s t)
    (next : t.main = op.next s (.command cmd) ret rest) (own : ofMain e = true)
    (answered : answers host cmd op = true)
  | fails {ret : MiniKVMError} {op : Op n} {rest : List (Op n)}
    (at_ : s.main = .exec (.command cmd) ret (op :: rest)) (query : op.guarded = true)
    (only : t = { s with main := .exec (.command cmd) .internalError [] }) (own : ofMain e = true)
    (refused : answers host cmd op = false)
  | returns {ret : MiniKVMError} (at_ : s.main = .exec (.command cmd) ret []) (event : e = .main)
    (result : t = finish s ret (.command cmd))
  | crashes {ret : MiniKVMError} {rest : List (Op n)}
    (at_ : s.main = .exec (.command cmd) ret (.dumpMem :: rest)) (event : e = .crash)
    (only : t = { s with killed := true })
  | vcpus (of : ofVcpus e = true) (h : step s e = some t)

theorem call_cases {cmd : MiniKvmStatusCommand} {s t : State n} {e : Event n} (inCall : InCall cmd s)
    (h : callStep fuel host s e = some t) : CallCases host cmd s e t := by
  obtain ⟨permitted, moves⟩ := callStep_eq_some.mp h
  cases step_cases moves with
  | @op _ task ret op rest _ at_ effect next event =>
    cases inCall.eq_of_exec at_
    refine .op at_ effect next ?_ ?_
    · rcases event with rfl | ⟨-, i, rfl⟩ <;> rfl
    · rcases event with rfl | ⟨rfl, -⟩
      · cases op <;> simp_all [permits, answers]
      · rfl
  | finish at_ =>
    cases inCall.eq_of_exec at_
    exact .returns at_ rfl rfl
  | createFails at_ => simp [permits, at_] at permitted
  | @queryFails task ret op rest at_ query =>
    cases inCall.eq_of_exec at_
    refine .fails at_ query rfl rfl ?_
    cases op <;> simp_all [permits, answers]
  | kills kill =>
    cases kill with
    | crash at_ =>
      cases inCall.eq_of_exec at_
      exact .crashes at_ rfl rfl
    | brokenPipe at_ => simp [permits] at permitted
    | signal => exact .vcpus rfl moves
  | vcpu side => exact .vcpus (ofVcpus_of_side side) moves
  | leave at_ | loop at_ => simp [permits, at_] at permitted
  | accept | recv | recvEnd | reply | caught | uncaught => simp [permits] at permitted

/-- How the main thread of a call comes to have `rest` to come. -/
inductive CallArrives (host : Host n) (cmd : MiniKvmStatusCommand) (s : State n) (e : Event n)
    (t : State n) (rest : List (Op n)) : Prop where
  | stays {i : Fin n} (same : s.In (.command cmd) rest) (side : VcpuSide s i e t)
  | runs {op : Op n} (was : s.In (.command cmd) (op :: rest)) (effect : op.Effect s t)
    (paused : op = .unlessPausedReturn → s.kvm.state = .paused)
    (answered : answers host cmd op = true)
  | ends (last : rest = [])
  | killed (killed : t.killed = true)

theorem call_arrives {cmd : MiniKvmStatusCommand} {s t : State n} {e : Event n}
    {rest : List (Op n)} (inCall : InCall cmd s) (h : callStep fuel host s e = some t)
    (here : t.In (.command cmd) rest) : CallArrives host cmd s e t rest := by
  obtain ⟨ret, here⟩ := here
  cases call_cases inCall h with
  | @op ret' op rest' at_ effect next own answered =>
    rw [next] at here
    rcases Op.next_cases s (.command cmd) ret' rest' op with
      ⟨goes, -, paused⟩ | ⟨-, -, goes⟩ | ⟨-, -, goes⟩ <;> rw [goes] at here <;> cases here
    · exact .runs ⟨_, at_⟩ effect paused answered
    · exact .ends rfl
    · exact .ends rfl
  | fails at_ query only =>
    rw [only] at here
    cases here
    exact .ends rfl
  | returns at_ event result =>
    rw [result] at here
    cases here
  | crashes at_ event only => exact .killed (by rw [only])
  | vcpus of moves =>
    obtain ⟨i, side⟩ | ⟨only, -⟩ := side_of_vcpus of moves
    · exact .stays ⟨ret, side.frame.main ▸ here⟩ side
    · exact .killed (by rw [only])

theorem inCall_step {cmd : MiniKvmStatusCommand} {s t : State n} {e : Event n}
    (inCall : InCall cmd s) (h : callStep fuel host s e = some t) : InCall cmd t := by
  cases call_cases inCall h with
  | @op ret op rest at_ effect next own =>
    rcases Op.next_cases s (.command cmd) ret rest op with ⟨goes, -⟩ | ⟨-, -, goes⟩ | ⟨-, -, goes⟩ <;>
      exact .inl ⟨_, _, next.trans goes⟩
  | fails at_ query only => exact .inl ⟨[], _, by rw [only]⟩
  | returns at_ event result => exact .inr (by rw [result]; rfl)
  | crashes at_ event only =>
    rw [only]
    exact inCall
  | vcpus of moves =>
    obtain ⟨i, side⟩ | ⟨rfl, -⟩ := side_of_vcpus of moves
    · unfold InCall State.In at *
      rwa [side.frame.main]
    · exact inCall

/-- How many steps the main thread has before it. -/
def ahead (s : State n) : Nat :=
  match s.main with
  | .exec _ _ ops => ops.length + 1
  | _ => 0

/-- Every step of the main thread is one less. -/
theorem ahead_step {cmd : MiniKvmStatusCommand} {s t : State n} {e : Event n} (inCall : InCall cmd s)
    (h : callStep fuel host s e = some t) :
    ahead t + (if ofMain e = true then 1 else 0) ≤ ahead s := by
  cases call_cases inCall h with
  | @op ret op rest at_ effect next own =>
    rcases Op.next_cases s (.command cmd) ret rest op with ⟨goes, -⟩ | ⟨-, -, goes⟩ | ⟨-, -, goes⟩ <;>
      simp [ahead, next, goes, at_, own]
  | fails at_ query only own => simp [ahead, only, at_, own]
  | returns at_ event result => simp [ahead, result, finish, at_, event, ofMain]
  | crashes at_ event only => simp [ahead, only, event, ofMain]
  | vcpus of moves =>
    have own : ofMain e = false := by cases e <;> first | rfl | cases of
    obtain ⟨i, side⟩ | ⟨rfl, -⟩ := side_of_vcpus of moves
    · simp [ahead, side.frame.main, own]
    · simp [ahead, own]

theorem count_le_ahead {cmd : MiniKvmStatusCommand} {s t : State n} {es : List (Event n)}
    (inCall : InCall cmd s) (reaches : (calls fuel host).run s es = some t) :
    es.countP ofMain ≤ ahead s := by
  induction es generalizing s with
  | nil => simp
  | cons e es ih =>
    obtain ⟨u, moves, rest⟩ := (calls fuel host).run_cons.mp reaches
    have less := ahead_step inCall moves
    have later := ih (inCall_step inCall moves) rest
    rw [List.countP_cons]
    omega

/-! The vcpus do not see the position of the main thread, the reply and `kvm->lock`. -/

/-- The same vcpus beside another main thread. -/
def beside (s main : State n) : State n :=
  { s with main := main.main, res := main.res, kvm := { s.kvm with lock := main.kvm.lock } }

theorem eq_beside {s v : State n} (vcpus : v.vcpus = s.vcpus) (pending : v.pending = s.pending)
    (killed : v.killed = s.killed) (state : v.kvm.state = s.kvm.state)
    (paused : v.kvm.paused = s.kvm.paused) (pauseLock : v.kvm.pauseLock = s.kvm.pauseLock)
    (pauseCond : v.kvm.pauseCond = s.kvm.pauseCond) : v = beside s v := by
  obtain ⟨⟨_, _, _, _, _⟩, _, _, _, _, _⟩ := v
  simp only at vcpus pending killed state paused pauseLock pauseCond
  simp only [beside, vcpus, pending, killed, state, paused, pauseLock, pauseCond]

@[simp] theorem beside_vcpus (s main : State n) : (beside s main).vcpus = s.vcpus := rfl

@[simp] theorem beside_pending (s main : State n) : (beside s main).pending = s.pending := rfl

@[simp] theorem installed_beside {s main : State n} : (beside s main).Installed ↔ s.Installed :=
  Iff.rfl

theorem thread_beside (s main : State n) (i : Fin n) :
    kvmVcpuThreadRun (beside s main) i = (kvmVcpuThreadRun s i).map (beside · main) := by
  cases at_ : s.vcpus i with
  | waiting =>
    by_cases woken : s.kvm.pauseCond.waiter i = some .woken
    · cases owner : s.kvm.pauseLock.owner <;>
        simp [kvmVcpuThreadRun, beside, at_, woken, Mutex.lock, owner, State.goto]
    · simp [kvmVcpuThreadRun, beside, at_, woken]
  | exited ret reason =>
    simp only [kvmVcpuThreadRun, beside, at_]
    split
    · rfl
    · split <;> rfl
  | testShutdown | testPaused | testFlag =>
    simp only [kvmVcpuThreadRun, beside, at_, Option.map_some]
    rfl
  | _ => simp [kvmVcpuThreadRun, beside, at_, State.goto]

theorem step_beside {s main : State n} {e : Event n} (of : ofVcpus e = true) :
    step (beside s main) e = (step s e).map (beside · main) := by
  have same : (beside s main).killed = s.killed := rfl
  unfold step
  rw [same]
  split
  · rfl
  · cases e with
    | vcpu i => exact thread_beside s main i
    | exit i ret reason =>
      by_cases inside : s.vcpus i = .inRun <;>
        simp [live, exitStep, beside, inside, State.goto]
    | deliver i sig =>
      by_cases sent : sig ∈ s.pending i <;> by_cases ready : s.Installed <;>
        by_cases inside : s.vcpus i = .inRun <;>
        simp [live, deliverStep, sent, ready, inside] <;> rfl
    | _ => cases of

/-- The main thread makes the access at once, and gets past it. -/
def Unblocked (fuel : Nat) (host : Host n) (cmd : MiniKvmStatusCommand) (s : State n) : Op n → Prop
  | .lock => s.kvm.lock.owner = none
  | .lockPause => s.kvm.pauseLock.owner = none
  | .getRegs i => s.vcpus i ≠ .inRun ∧ (host.regs i = false → host.logs = true)
  | .dumpMem => (host.opens cmd.pid = true → dumpEnd fuel host cmd = .done) ∧
    (host.opens cmd.pid = false → host.logs = true)
  | _ => True

theorem exists_access_iff {cmd : MiniKvmStatusCommand} {s : State n} {ret : MiniKVMError} {op : Op n}
    {rest : List (Op n)} (alive : s.killed = false)
    (at_ : s.main = .exec (.command cmd) ret (op :: rest)) :
    (∃ e t, ofMain e = true ∧ callStep fuel host s e = some t) ↔ Unblocked fuel host cmd s op := by
  constructor
  · rintro ⟨e, t, own, h⟩
    obtain ⟨permitted, moves⟩ := callStep_eq_some.mp h
    rw [step_of_alive alive] at moves
    cases e with
    | main =>
      have runs : (op.exec s).isSome = true := by
        simp only [live, mainStep, at_] at moves
        obtain ⟨u, hu, -⟩ := Option.map_eq_some_iff.mp moves
        simp [hu]
      cases op <;> simp_all [Unblocked, Op.exec, permits]
    | wake i =>
      cases op <;> simp_all [Unblocked, live, wakeStep]
    | fails =>
      cases op <;> simp_all [Unblocked, live, failStep, permits]
    | _ => cases own
  · intro free
    have goes (e : Event n) (own : ofMain e = true) (permitted : permits fuel host s e = true)
        (moves : (live s e).isSome = true) :
        ∃ e t, ofMain e = true ∧ callStep fuel host s e = some t := by
      obtain ⟨t, ht⟩ := Option.isSome_iff_exists.mp moves
      exact ⟨e, t, own, callStep_eq_some.mpr ⟨permitted, step_eq_some.mpr ⟨alive, ht⟩⟩⟩
    cases op with
    | signalPauseCond =>
      by_cases nobody : s.kvm.pauseCond.NobodyAsleep
      · exact goes .main rfl (by simp [permits, at_]) (by simp [live, mainStep, at_, Op.exec, nobody])
      · obtain ⟨i, asleep⟩ : ∃ i, s.kvm.pauseCond.waiter i = some .asleep := by
          simpa [Sync.CondVar.NobodyAsleep] using nobody
        exact goes (.wake i) rfl rfl (by simp [live, wakeStep, at_, Sync.CondVar.wake, asleep])
    | getRegs i =>
      obtain ⟨outside, logs⟩ := free
      cases answer : host.regs i with
      | true =>
        exact goes .main rfl (by simp [permits, at_, answer])
          (by simp [live, mainStep, at_, Op.exec, outside])
      | false =>
        exact goes .fails rfl (by simp [permits, at_, answer, logs answer])
          (by simp [live, failStep, at_, outside])
    | dumpMem =>
      obtain ⟨ends, logs⟩ := free
      cases opens : host.opens cmd.pid with
      | true =>
        exact goes .main rfl (by simp [permits, at_, opens, ends opens])
          (by simp [live, mainStep, at_, Op.exec])
      | false =>
        exact goes .fails rfl (by simp [permits, at_, opens, logs opens])
          (by simp [live, failStep, at_])
    | lock | lockPause =>
      exact goes .main rfl (by simp [permits, at_])
        (by simpa [live, mainStep, at_, Op.exec, Unblocked] using free)
    | _ => exact goes .main rfl (by simp [permits, at_]) (by simp [live, mainStep, at_, Op.exec])

end Runs

end MiniKvm.Source.CommandCalls
