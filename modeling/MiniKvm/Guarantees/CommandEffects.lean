import MiniKvm.Source.ClientTraces
import MiniKvm.Guarantees.ClientSerial

/-!
# What does a client know when its reply arrives?

Between the store of a handler and the moment its client takes the reply the vcpu threads go on. They
store nothing but MINI_KVM_SHUTDOWN, and no other client is served: what the reply says still holds of
the VM, up to a shutdown.
-/
namespace MiniKvm.Guarantees.CommandEffects
open Source Source.Server Source.Clients ClientSerial

variable {n : Nat}

/-! ## The property -/

/-- What a reply says of the VM. -/
def Fulfilled (r : Reply) (s : State n) : Prop :=
  match r.cmdType with
  | .none => True
  | .pause => r.error = .success ∧ s.kvm.paused = 1 ∧ s.kvm.state ≠ .running
  | .resume => r.error = .success ∧ s.kvm.paused = 0 ∧ s.kvm.state ≠ .paused
  | .shutdown => r.error = .success ∧ s.kvm.paused = 0 ∧ s.kvm.state = .shutdown
  | .showState => s.kvm.state = r.state ∨ s.kvm.state = .shutdown
  | .showRegs | .dumpMem => r.error = .success → s.kvm.state ≠ .running

/-- A client that takes a reply finds the VM as the reply says. -/
def Informed (_ : List Entry) (w : World n) (e : NetEvent n) : Prop :=
  ∀ j r, entry w e = some (.received j r) → Fulfilled r w.server

theorem fulfilled_of_kvm {r : Reply} {s t : State n} (same : t.kvm = s.kvm) (h : Fulfilled r s) :
    Fulfilled r t := by
  unfold Fulfilled at h ⊢
  rwa [same]

/-- The vcpu threads take nothing back. -/
theorem fulfilled_vcpu {r : Reply} {s t : State n} {i : Fin n} (frame : VcpuFrame s i t)
    (h : Fulfilled r s) : Fulfilled r t := by
  unfold Fulfilled at h ⊢
  rw [frame.paused]
  rcases frame.state with same | down
  · rwa [same]
  · rw [down]
    split <;> simp_all

/-! ## The queries -/

/-- What the queries have found still holds, up to a shutdown. -/
structure Queried (s : State n) : Prop where
  read : ∀ {cmd rest}, cmd.type = .showState → s.In (.command cmd) rest → .readState ∉ rest →
    s.kvm.state = s.res.state ∨ s.kvm.state = .shutdown
  checked : ∀ {cmd rest}, cmd.type = .showRegs ∨ cmd.type = .dumpMem →
    s.main = .exec (.command cmd) .success rest → .unlessPausedReturn ∉ rest →
      s.kvm.state ≠ .running

/-- A query stores nothing to `kvm->state`. -/
theorem state_of_query {s t : State n} {cmd : MiniKvmStatusCommand} {op : Op n} {rest : List (Op n)}
    (text : InText s) (here : s.In (.command cmd) (op :: rest)) (query : ¬ cmd.type.Changes)
    (effect : op.Effect s t) : t.kvm.state = s.kvm.state := by
  rcases effect.state_cases with ⟨v, rfl, -⟩ | same
  · rcases mem_query_ops query (text.mem here) with other | other | other <;>
      simp [Op.guarded] at other
  · exact same

theorem read_step {s t : State n} {e : Event n} (text : InText s) (before : Queried s)
    (h : step s e = some t) {cmd : MiniKvmStatusCommand} {rest : List (Op n)}
    (shows : cmd.type = .showState) (here : t.In (.command cmd) rest) (done : .readState ∉ rest) :
    t.kvm.state = t.res.state ∨ t.kvm.state = .shutdown := by
  have query : ¬ cmd.type.Changes := by simp [shows, CommandType.Changes, CommandType.Releases]
  cases step_in h here with
  | stays same side =>
    have frame := side.frame
    rw [frame.res]
    rcases frame.state with kept | down
    · rw [kept]
      exact before.read shows same done
    · exact .inr down
  | @runs op rest was effect flag paused =>
    rw [state_of_query text was query effect, effect.res]
    by_cases reads : op = .readState
    · subst reads
      exact .inl rfl
    · have earlier := before.read shows was (by simp [done, Ne.symm reads])
      cases op <;> simp_all
  | skips was flag effect =>
    obtain ⟨_, ⟨⟩, kind, -⟩ := at_ifPaused (text _ _ was)
    cases shows.symm.trans kind
  | refuses was query effect =>
    obtain ⟨_, ⟨⟩, kind⟩ := at_guarded (text _ _ was) query
    rcases kind with kind | kind <;> cases shows.symm.trans kind
  | gives was only => cases startVm_of_pthreadCreate (text.mem was)
  | begins was isCommand only =>
    cases isCommand
    simp [miniKvmStatusHandleCommand, handlers, shows, statusHandleCmdState] at done
  | catches was isBranch only => cases isBranch
  | halts same only =>
    rw [only]
    exact before.read shows same done

theorem checked_step {s t : State n} {e : Event n} (text : InText s) (before : Queried s)
    (h : step s e = some t) {cmd : MiniKvmStatusCommand} {rest : List (Op n)}
    (kind : cmd.type = .showRegs ∨ cmd.type = .dumpMem)
    (here : t.main = .exec (.command cmd) .success rest) (done : .unlessPausedReturn ∉ rest) :
    t.kvm.state ≠ .running := by
  have query : ¬ cmd.type.Changes := by
    rcases kind with kind | kind <;> simp [kind, CommandType.Changes, CommandType.Releases]
  cases step_cases h with
  | @op _ task ret op rest' _ at_ effect next event =>
    rw [next] at here
    rcases Op.next_cases s task ret rest' op with
      ⟨goes, -, paused⟩ | ⟨rfl, -, goes⟩ | ⟨rfl, -, goes⟩ <;> rw [goes] at here <;> cases here
    · rw [state_of_query text ⟨_, at_⟩ query effect]
      by_cases checks : op = .unlessPausedReturn
      · simp [paused checks]
      · exact before.checked kind at_ (by simp [done, Ne.symm checks])
    · obtain ⟨_, ⟨⟩, other, -⟩ := at_ifPaused (text _ _ ⟨_, at_⟩)
      simp [other] at kind
  | @finish task ret at_ =>
    rcases finish_main s ret task with goes | goes | goes <;> rw [goes] at here <;> cases here
  | createFails at_ => cases here
  | queryFails at_ failed => cases here
  | accept connected at_ => cases connected <;> cases here
  | recv cmd' at_ =>
    cases here
    rcases kind with kind | kind <;>
      simp [miniKvmStatusHandleCommand, handlers, kind, statusHandleRegs, statusHandleDumpMem] at done
  | leave at_ | loop at_ | recvEnd at_ | reply at_ | caught at_ | uncaught at_ => cases here
  | kills => exact before.checked kind here done
  | vcpu side =>
    have frame := side.frame
    rcases frame.state with same | down
    · rw [same]
      exact before.checked kind (frame.main ▸ here) done
    · simp [down]

theorem queried_step {s t : State n} {e : Event n} (text : InText s) (before : Queried s)
    (h : step s e = some t) : Queried t :=
  ⟨fun shows here done => read_step text before h shows here done,
    fun kind here done => checked_step text before h kind here done⟩

theorem queried_init : Queried (init n) where
  read _ here := by
    obtain ⟨ret, here⟩ := here
    cases here
  checked _ here := by cases here

/-! ## The reply -/

/-- The reply that a handler leaves says what the handler has done. -/
theorem fulfilled_finish {s : State n} {cmd : MiniKvmStatusCommand} {ret : MiniKVMError}
    (sound : Sound s) (flag : s.kvm.paused = 0 ∨ s.kvm.paused = 1) (queried : Queried s)
    (at_ : s.main = .exec (.command cmd) ret []) :
    Fulfilled (finish s ret (.command cmd)).res (finish s ret (.command cmd)) := by
  have flag' := paused_at_return sound.progress flag at_
  have done : s.In (.command cmd) [] := ⟨ret, at_⟩
  have succeeds (changes : cmd.type.Changes) : ret = .success := sound.succeeds _ _ _ at_ changes
  simp only [Fulfilled, finish]
  cases kind : cmd.type with
  | none => trivial
  | pause =>
    have up := sound.progress.pausing kind done (by simp)
    exact ⟨succeeds (.inl kind), by simpa [after, kind] using flag'.symm, up⟩
  | resume =>
    have up := sound.progress.resuming kind done (by simp)
    exact ⟨succeeds (.inr (.inl kind)), by simpa [after, kind] using flag'.symm, up⟩
  | shutdown =>
    have down := sound.progress.stopping kind done (by simp)
    exact ⟨succeeds (.inr (.inr kind)), by simpa [after, kind] using flag'.symm, down⟩
  | showState => exact queried.read kind done (by simp)
  | showRegs =>
    rintro rfl
    exact queried.checked (.inl kind) at_ (by simp)
  | dumpMem =>
    rintro rfl
    exact queried.checked (.inr kind) at_ (by simp)

theorem replying_inner {s t : State n} {e : Event n} (sound : Sound s)
    (flag : s.kvm.paused = 0 ∨ s.kvm.paused = 1) (queried : Queried s)
    (before : s.main = .replying → Fulfilled s.res s) (h : step s e = some t)
    (now : t.main = .replying) : Fulfilled t.res t := by
  cases step_cases h with
  | @op _ task ret op rest _ at_ effect next event =>
    rw [next] at now
    rcases Op.next_cases s task ret rest op with ⟨goes, -⟩ | ⟨-, -, goes⟩ | ⟨-, -, goes⟩ <;>
      rw [goes] at now <;> cases now
  | @finish task ret at_ =>
    cases task with
    | startVm => by_cases started : ret = .success <;> simp [finish, started] at now
    | signalBranch => cases now
    | command cmd => exact fulfilled_finish sound flag queried at_
  | accept connected at_ => cases connected <;> cases now
  | createFails at_ | queryFails at_ | recv cmd at_ | leave at_ | loop at_ | recvEnd at_ | reply at_
  | caught at_ | uncaught at_ => cases now
  | kills => exact fulfilled_of_kvm rfl (before now)
  | vcpu side =>
    have frame := side.frame
    rw [frame.res]
    exact fulfilled_vcpu frame (before (frame.main ▸ now))

/-! ## Every run -/

/-- A reply on its way still says what holds, and so does the one that is about to be sent. -/
structure Owed (w : World n) : Prop where
  serial : Serial w
  queried : Queried w.server
  reply : w.server.main = .replying → Fulfilled w.server.res w.server
  flight : ∀ j, ∀ r ∈ (w.clients j).toClient,
    w.current = some j ∧ w.server.main = .receiving ∧ Fulfilled r w.server

section Steps

variable {w w' : World n} {e : NetEvent n}

/-- A client and its socket, when the server takes from it, wait for no reply. -/
theorem no_flight (owed : Owed w) {j : Nat} (current : w.current = some j)
    (at_ : w.server.main = .receiving)
    (takes : (w.clients j).toServer ≠ [] ∨ (w.clients j).prog = []) (k : Nat) :
    (w.clients k).toClient = [] := by
  have talk := owed.serial.talk
  simp only [Talk, at_] at talk
  obtain ⟨j', current', speaks⟩ := talk
  cases current.symm.trans current'
  have mine : (w.clients j).toClient = [] := by
    cases speaks with
    | idle _ toClient _ => exact toClient
    | asked _ toClient => exact toClient
    | answered toServer _ prog => simp [toServer, prog] at takes
  rw [List.eq_nil_iff_forall_not_mem]
  intro r there
  obtain ⟨served, -⟩ := owed.flight k r there
  cases current.symm.trans served
  simp [mine] at there

/-- A client of its own changes, and takes at most a reply. -/
theorem Owed.aside (owed : Owed w) (moves : netStep w e = some w') {j : Nat} {c : Client}
    (is : w' = w.setClient j c) (kept : c.toClient <:+ (w.clients j).toClient) : Owed w' := by
  have serial := serial_step owed.serial moves
  subst is
  refine ⟨serial, owed.queried, owed.reply, fun k r there => ?_⟩
  rw [World.setClient_clients] at there
  split at there
  · next same =>
    subst same
    exact owed.flight k r (kept.subset there)
  · exact owed.flight k r there

theorem owed_step (owed : Owed w) (moves : netStep w e = some w') : Owed w' := by
  have serial := serial_step owed.serial moves
  have text := owed.serial.sound.text
  have queried (e' : Event n) {t : State n} (h : step w.server e' = some t) : Queried t :=
    queried_step text owed.queried h
  -- no reply is on its way unless the server waits for its client
  have nothing (elsewhere : w.server.main ≠ .receiving) (k : Nat) : (w.clients k).toClient = [] := by
    rw [List.eq_nil_iff_forall_not_mem]
    intro r there
    exact elsewhere (owed.flight k r there).2.1
  cases net_cases moves with
  | connect away => exact owed.aside moves rfl List.suffix_rfl
  | connectFails away => exact owed.aside moves rfl List.suffix_rfl
  | @act j c h =>
    refine owed.aside moves rfl ?_
    rcases act_messages (j := j) h with ⟨_, -, -, same⟩ | ⟨r, -, taken, -⟩ | ⟨-, -, same⟩
    · exact same ▸ List.suffix_rfl
    · exact taken ▸ List.suffix_cons _ _
    · exact same ▸ List.suffix_rfl
  | endOfFile left h => exact owed.aside moves rfl ((endOfFile_messages h).2 ▸ List.suffix_rfl)
  | @accept j waits at_ alive =>
    refine ⟨serial, queried (.accept true) (accept_eq_some.mpr ⟨alive, at_, rfl⟩), by simp,
      fun k r there => ?_⟩
    have none_ := nothing (by simp [at_])
    by_cases same : k = j <;> simp [World.setClient_clients, same, none_] at there
  | acceptNone at_ alive =>
    refine ⟨serial, queried (.accept false) (accept_eq_some.mpr ⟨alive, at_, rfl⟩), by simp,
      fun k r there => ?_⟩
    simp [nothing (by simp [at_])] at there
  | @serve j cmd cmds current sent at_ alive =>
    refine ⟨serial, queried _ (recv_eq_some.mpr ⟨alive, at_, rfl⟩), by simp, fun k r there => ?_⟩
    have none_ := no_flight owed current at_ (.inl (by simp [sent]))
    by_cases same : k = j <;> simp [World.setClient_clients, same, none_] at there
  | hangUp current sent closed at_ alive =>
    refine ⟨serial, queried _ (recvEnd_eq_some.mpr ⟨alive, at_, rfl⟩), by simp,
      fun k r there => ?_⟩
    simp [no_flight owed current at_ (.inr closed)] at there
  | brokenPipe current at_ closed alive =>
    refine ⟨serial, queried _ (brokenPipe_eq_some.mpr ⟨alive, at_, rfl⟩),
      fun now => fulfilled_of_kvm rfl (owed.reply now), fun k r there => ?_⟩
    simp [nothing (by simp [at_])] at there
  | @reply j current at_ listens alive =>
    refine ⟨serial, queried _ (reply_eq_some.mpr ⟨alive, at_, rfl⟩), by simp, fun k r there => ?_⟩
    have none_ := nothing (by simp [at_])
    by_cases same : k = j
    · subst same
      obtain rfl : r = w.server.res := by simpa [World.setClient_clients, none_] using there
      exact ⟨current, rfl, fulfilled_of_kvm rfl (owed.reply at_)⟩
    · simp [World.setClient_clients, same, none_] at there
  | @inner e s own h =>
    refine ⟨serial, queried _ h, fun now => ?_, fun k r there => ?_⟩
    · exact replying_inner owed.serial.sound owed.serial.flag owed.queried owed.reply h now
    · obtain ⟨current, waits, fulfilled⟩ := owed.flight k r there
      cases step_cases h with
      | vcpu side =>
        have frame := side.frame
        exact ⟨current, frame.main.trans waits, fulfilled_vcpu frame fulfilled⟩
      | kills => exact ⟨current, waits, fulfilled_of_kvm rfl fulfilled⟩
      | recv cmd at_ | recvEnd at_ => cases own
      | op at_ | finish at_ | leave at_ | loop at_ | createFails at_ | queryFails at_ | accept _ at_
      | reply at_ | caught at_ | uncaught at_ => simp [at_] at waits

end Steps

theorem owed_init (programs : Nat → Program) : Owed (World.init n programs) where
  serial := serial_init programs
  queried := queried_init
  reply h := by cases h
  flight j r there := by cases there

/-- Whatever shipped clients there are and however they interleave, with each other and with the vcpu
threads: when a client takes a reply, the VM is still as the reply says, or has been shut down. -/
theorem replies_hold (programs : Nat → Program) (r : (exchange n).Run (World.init n programs)) :
    (exchange n).Steps Informed [] (World.init n programs) r.events := by
  refine (exchange n).steps_of_invariant Owed (fun w e w' owed moves => owed_step owed moves) ?_
    (owed_init programs) r.reaches
  intro past w e w' owed moves j reply takes
  cases net_cases moves with
  | @act k c h =>
    rcases act_messages (j := k) h with ⟨_, is, -⟩ | ⟨r, is, toClient, -⟩ | ⟨is, -, -⟩ <;>
      simp only [entry, is, Option.some.injEq, reduceCtorEq, Entry.received.injEq] at takes
    obtain ⟨rfl, rfl⟩ := takes
    exact (owed.flight k r (by simp [toClient])).2.2
  | serve current sent at_ | hangUp current sent closed at_ => simp [entry, current, sent] at takes
  | reply current at_ listens => simp [entry, current, listens] at takes
  | brokenPipe current at_ closed => simp [entry, current, closed] at takes
  | inner own h =>
    obtain ⟨v, -, is⟩ := Option.map_eq_some_iff.mp takes
    cases is
  | connect | connectFails | endOfFile | accept | acceptNone => cases takes

end MiniKvm.Guarantees.CommandEffects
