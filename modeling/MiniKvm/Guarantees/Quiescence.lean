import MiniKvm.Source.ServerInvariants

/-!
# Is a paused VM quiescent?

PAUSE stores MINI_KVM_PAUSED and sends SIGVMPAUSE to every vcpu thread, without waiting for any of
them. The signal brings a thread out of KVM_RUN, and the stored state keeps it out; between the test
of the state and KVM_RUN a thread is within reach of neither.
-/
namespace MiniKvm.Guarantees.Quiescence
open Source Source.Server

variable {n : Nat}

/-- A PAUSE has returned MINI_KVM_SUCCESS, and no RESUME or SHUTDOWN has been handled since. -/
def inForce (past : List Label) : Bool :=
  past.foldl (fun r l =>
    match l with
    | .returned .pause .success => true
    | .began .resume | .began .shutdown => false
    | _ => r) false

theorem inForce_append (past : List Label) (l : Option Label) :
    inForce (past ++ l.toList) = match l with
      | some (.returned .pause .success) => true
      | some (.began .resume) | some (.began .shutdown) => false
      | _ => inForce past := by
  cases l with
  | none => simp
  | some l =>
    simp only [inForce, Option.toList_some, List.foldl_append, List.foldl_cons, List.foldl_nil]
    grind

/-- The thread has passed the test of MINI_KVM_PAUSED and has not left KVM_RUN since. -/
def committed : VcpuPc → Bool
  | .enterRun | .inRun => true
  | _ => false

/-- PAUSE is being handled and has made its store. -/
def stored (s : State n) : Bool :=
  match s.main with
  | .exec (.command cmd) _ rest => cmd.type = .pause && decide (.storeState .paused ∉ rest)
  | _ => false

/-- The function in progress has SIGVMPAUSE still to send to vcpu `i`. -/
def sends (s : State n) (i : Fin n) : Bool :=
  match s.main with
  | .exec _ _ rest => .pthreadKill i .pause ∈ rest
  | _ => false

/-- The next step of the main thread is the return of PAUSE. -/
def returnsPause (s : State n) : Bool :=
  match s.main with
  | .exec (.command cmd) _ [] => cmd.type = .pause
  | _ => false

/-- SIGVMPAUSE is in time for every vcpu: it is not consumed just before KVM_RUN, it is not still in
flight to such a thread when PAUSE returns, and no thread takes MINI_KVM_SHUTDOWN, stored over
MINI_KVM_PAUSED, for leave to run. -/
def InTime (past : List Label) (s : State n) : Event n → Prop
  | .deliver i .pause => stored s = true → s.vcpus i = .enterRun →
    sends s i = true ∨ .pause ∈ (s.pending i).erase .pause
  | .main => returnsPause s = true → ∀ i, committed (s.vcpus i) = true → .pause ∉ s.pending i
  | .vcpu i => s.vcpus i = .testPaused → s.kvm.state = .shutdown →
    inForce past = false ∧ (stored s = true → sends s i = true ∨ .pause ∈ s.pending i)
  | _ => True

instance (past : List Label) (s : State n) (e : Event n) : Decidable (InTime past s e) :=
  match e with
  | .deliver _ .pause | .main | .vcpu _ => inferInstanceAs (Decidable (_ → _))
  | .deliver _ .resume | .deliver _ .shutdown | .wake _ | .fails | .crash | .accept _ | .recv _
  | .reply | .brokenPipe | .sigTest _ | .exit .. => inferInstanceAs (Decidable True)

/-- The accesses of SHOW_REGS and DUMP_MEM to the guest. -/
def observes : Op n → Bool
  | .getRegs _ | .dumpMem => true
  | _ => false

/-- From the store of PAUSE on, a thread that has passed the test has SIGVMPAUSE on its way; when
PAUSE has returned there is no such thread. -/
structure Chased (past : List Label) (s : State n) : Prop where
  empty : inForce past = true → ∀ i, committed (s.vcpus i) = false
  chased : stored s = true → ∀ i, committed (s.vcpus i) = true →
    sends s i = true ∨ .pause ∈ s.pending i

/-- MINI_KVM_PAUSED is in the state only by a PAUSE in force, one in progress or the start. -/
structure Standing (past : List Label) (s : State n) : Prop where
  still : inForce past = true → s.kvm.state ≠ .running
  idle : inForce past = true →
    s.handles .resume = false ∧ s.handles .shutdown = false ∧ s.starting = false
  paused : s.kvm.state = .paused → inForce past = true ∨ s.starting = true ∨
    ∃ type, type.Changes ∧ s.handles type = true
  checked : ∀ cmd rest, ¬ cmd.type.Changes → s.In (.command cmd) rest →
    .unlessPausedReturn ∉ rest → (∃ op ∈ rest, observes op = true) → inForce past = true

theorem handles_of_stored {s : State n} (h : stored s = true) : s.handles .pause = true := by
  unfold stored at h
  unfold State.handles
  split at h
  · simp_all
  · cases h

theorem not_running_of_stored {s : State n} (progress : Progress s) (h : stored s = true) :
    s.kvm.state ≠ .running := by
  unfold stored at h
  split at h
  · next cmd ret rest at_ =>
    simp only [Bool.and_eq_true, decide_eq_true_eq] at h
    exact progress.pausing h.1 ⟨ret, at_⟩ h.2
  · cases h

/-- An access starts no thread inside KVM_RUN. -/
theorem committed_op {s t : State n} {op : Op n} (effect : op.Effect s t) {i : Fin n}
    (h : committed (t.vcpus i) = true) : committed (s.vcpus i) = true := by
  rw [effect.vcpus] at h
  cases op with
  | pthreadCreate j =>
    by_cases same : i = j
    · simp [same, committed] at h
    · simpa [Function.update_of_ne same] using h
  | _ => exact h

/-- PAUSE has no test, so its accesses follow each other. -/
theorem next_of_pause {s : State n} {cmd : MiniKvmStatusCommand} {ret : MiniKVMError} {op : Op n}
    {rest : List (Op n)} (text : InText s) (kind : cmd.type = .pause)
    (at_ : s.main = .exec (.command cmd) ret (op :: rest)) :
    op.next s (.command cmd) ret rest = .exec (.command cmd) ret rest := by
  have member := (mem_pause_ops kind).mp (text.mem ⟨ret, at_⟩)
  rcases member with rfl | rfl | ⟨i, rfl⟩ | rfl | rfl <;> rfl

/-! ## Where MINI_KVM_PAUSED comes from -/

theorem still_step {past : List Label} {s t : State n} {e : Event n} (sound : Sound s)
    (before : Standing past s) (h : step s e = some t)
    (up : inForce (past ++ (label s e).toList) = true) : t.kvm.state ≠ .running := by
  cases trace_cases h with
  | @op task ret op rest at_ effect next unlabelled event =>
    rw [unlabelled, Option.toList_none, List.append_nil] at up
    obtain ⟨resume, shutdown, starting⟩ := before.idle up
    rcases effect.state_cases with ⟨v, rfl, stored⟩ | same
    · rw [stored]
      rcases at_storeState (sound.text _ _ ⟨ret, at_⟩) with
        ⟨rfl, -⟩ | ⟨-, rfl, -⟩ | ⟨cmd, rfl, ⟨-, rfl, -⟩ | ⟨kind, -⟩ | ⟨-, rfl, -⟩⟩
      · simp [State.starting, at_] at starting
      · simp
      · simp
      · simp [State.handles, at_, kind] at resume
      · simp
    · rw [same]
      exact before.still up
  | @finish task ret at_ event result =>
    subst event result
    rw [finish_state]
    rw [label_finish at_, inForce_append] at up
    cases task with
    | startVm | signalBranch => exact before.still up
    | command cmd =>
      by_cases kind : cmd.type = .pause
      · exact sound.progress.pausing kind ⟨ret, at_⟩ (by simp)
      · exact before.still (by cases type : cmd.type <;> simp_all [Task.returned])
  | @recv cmd at_ event result =>
    subst event result
    rw [inForce_append] at up
    exact before.still (by cases type : cmd.type <;> simp_all [label])
  | moves only unlabelled | kills only unlabelled =>
    rw [unlabelled, Option.toList_none, List.append_nil] at up
    rw [only]
    exact before.still up
  | vcpu side unlabelled =>
    rw [unlabelled, Option.toList_none, List.append_nil] at up
    rcases side.frame.state with same | down
    · rw [same]
      exact before.still up
    · simp [down]

theorem idle_step {past : List Label} {s t : State n} {e : Event n} (before : Standing past s)
    (h : step s e = some t) (up : inForce (past ++ (label s e).toList) = true) :
    t.handles .resume = false ∧ t.handles .shutdown = false ∧ t.starting = false := by
  have same (unlabelled : label s e = none) (handles : ∀ type, t.handles type = s.handles type) :
      t.handles .resume = false ∧ t.handles .shutdown = false ∧ t.starting = false := by
    rw [unlabelled, Option.toList_none, List.append_nil] at up
    obtain ⟨resume, shutdown, starting⟩ := before.idle up
    refine ⟨(handles _).trans resume, (handles _).trans shutdown, ?_⟩
    by_contra more
    simp [starting_back h (by simpa using more)] at starting
  cases trace_cases h with
  | op at_ effect next unlabelled event => exact same unlabelled (handles_op at_ next)
  | @finish task ret at_ event result =>
    subst result
    rcases finish_main s ret task with goes | goes | goes <;>
      simp [State.handles, State.starting, goes]
  | @recv cmd at_ event result =>
    subst event result
    rw [inForce_append] at up
    cases type : cmd.type <;> simp_all [label, State.handles, State.starting]
  | moves only unlabelled handles gives => exact same unlabelled handles
  | kills only unlabelled => exact same unlabelled (handles_of_main (by rw [only]))
  | vcpu side unlabelled => exact same unlabelled (handles_of_main side.frame.main)

theorem paused_step {past : List Label} {s t : State n} {e : Event n} (sound : Sound s)
    (before : Standing past s) (h : step s e = some t) (paused : t.kvm.state = .paused) :
    inForce (past ++ (label s e).toList) = true ∨ t.starting = true ∨
      ∃ type, type.Changes ∧ t.handles type = true := by
  have same (unlabelled : label s e = none) (handles : ∀ type, t.handles type = s.handles type)
      (was : s.kvm.state = .paused) :
      inForce (past ++ (label s e).toList) = true ∨ t.starting = true ∨
        ∃ type, type.Changes ∧ t.handles type = true := by
    rw [unlabelled, Option.toList_none, List.append_nil]
    rcases before.paused was with up | starting | ⟨type, changes, busy⟩
    · exact .inl up
    · rcases starting_kept sound.text h starting with kept | other
      · exact .inr (.inl kept)
      · exact absurd paused other
    · exact .inr (.inr ⟨type, changes, (handles _).trans busy⟩)
  cases trace_cases h with
  | @op task ret op rest at_ effect next unlabelled event =>
    rcases effect.state_cases with ⟨v, rfl, stored⟩ | unchanged
    · refine .inr (.inr ⟨.pause, .inl rfl, ?_⟩)
      rw [handles_op at_ next]
      rcases at_storeState (sound.text _ _ ⟨ret, at_⟩) with
        ⟨-, rfl, -⟩ | ⟨-, rfl, -⟩ | ⟨cmd, rfl, ⟨kind, -⟩ | ⟨-, rfl, -⟩ | ⟨-, rfl, -⟩⟩ <;>
        simp_all [State.handles]
    · exact same unlabelled (handles_op at_ next) (unchanged ▸ paused)
  | @finish task ret at_ event result =>
    subst event result
    have was : s.kvm.state = .paused := by rwa [finish_state] at paused
    rw [label_finish at_, inForce_append]
    rcases before.paused was with up | starting | ⟨type, changes, busy⟩
    · cases task <;> grind [Task.returned]
    · simp [State.starting, at_] at starting
    · cases task with
      | startVm | signalBranch => simp [State.handles, at_] at busy
      | command cmd =>
        have kind : cmd.type = type := by simpa [State.handles, at_] using busy
        subst kind
        have succeeds := sound.succeeds _ _ _ at_ changes
        rcases changes with kind | kind | kind
        · simp [Task.returned, kind, succeeds]
        · exact absurd was (sound.progress.resuming kind ⟨ret, at_⟩ (by simp))
        · simp [sound.progress.stopping kind ⟨ret, at_⟩ (by simp)] at was
  | @recv cmd at_ event result =>
    subst event result
    rcases before.paused paused with up | starting | ⟨type, -, busy⟩
    · rw [inForce_append]
      by_cases changes : cmd.type.Changes
      · exact .inr (.inr ⟨cmd.type, changes, by simp [State.handles]⟩)
      · simp only [CommandType.Changes, CommandType.Releases, not_or] at changes
        refine .inl ?_
        cases type : cmd.type <;> simp_all [label]
    · simp [State.starting, at_] at starting
    · simp [State.handles, at_] at busy
  | moves only unlabelled handles gives =>
    exact same unlabelled handles (by rw [only] at paused; exact paused)
  | kills only unlabelled =>
    exact same unlabelled (handles_of_main (by rw [only])) (by rw [only] at paused; exact paused)
  | vcpu side unlabelled =>
    refine same unlabelled (handles_of_main side.frame.main) ?_
    rcases side.frame.state with unchanged | down
    · exact unchanged ▸ paused
    · simp [down] at paused

/-- A function that observes the guest is a query, which tests the state first and once. -/
theorem observing_text {task : Task} {op : Op n} (member : op ∈ task.ops)
    (isObserving : observes op = true) :
    ∃ (cmd : MiniKvmStatusCommand) (tail : List (Op n)), task = .command cmd ∧ ¬ cmd.type.Changes ∧
      task.ops = [.lock, .unlessPausedReturn] ++ tail ∧ .unlessPausedReturn ∉ tail := by
  obtain ⟨front, rest, split⟩ := List.append_of_mem member
  obtain ⟨cmd, rfl, kind⟩ := at_guarded (split ▸ List.suffix_append front (op :: rest))
    (by cases op <;> simp_all [observes, Op.guarded])
  have query : ¬ cmd.type.Changes := by
    rcases kind with kind | kind <;> simp [kind, CommandType.Changes, CommandType.Releases]
  refine ⟨cmd, (Task.command cmd).ops.drop 2, rfl, query, ?_⟩
  rcases kind with kind | kind <;>
    simp [Task.ops, miniKvmStatusHandleCommand, handlers, kind, statusHandleRegs,
      statusHandleDumpMem]

theorem checked_step {past : List Label} {s t : State n} {e : Event n} (sound : Sound s)
    (before : Standing past s) (h : step s e = some t) (cmd : MiniKvmStatusCommand)
    (rest : List (Op n)) (query : ¬ cmd.type.Changes) (here : t.In (.command cmd) rest)
    (tested : .unlessPausedReturn ∉ rest) (observing : ∃ op ∈ rest, observes op = true) :
    inForce (past ++ (label s e).toList) = true := by
  have nonempty : rest ≠ [] := by
    rintro rfl
    simp at observing
  -- a query that has made no access has the test ahead
  have unstarted (whole : rest = (Task.command cmd).ops) : False := by
    obtain ⟨op, member, isObserving⟩ := observing
    rw [whole] at member tested
    obtain ⟨_, tail, -, -, text, -⟩ := observing_text member isObserving
    simp [text] at tested
  have same (unlabelled : label s e = none) : inForce (past ++ (label s e).toList) = true := by
    rw [unlabelled, Option.toList_none, List.append_nil]
    cases step_in h here with
    | stays same side => exact before.checked cmd rest query same tested observing
    | @runs op _ was effect flag paused =>
      by_cases test : op = .unlessPausedReturn
      · -- the test has read MINI_KVM_PAUSED
        obtain ⟨ret, at_⟩ := was
        rcases before.paused (paused test) with up | starting | ⟨type, changes, busy⟩
        · exact up
        · simp [State.starting, at_] at starting
        · simp only [State.handles, at_, decide_eq_true_eq] at busy
          exact absurd (busy ▸ changes) query
      · obtain ⟨op', member, isObserving⟩ := observing
        exact before.checked cmd _ query was (by simp [tested, Ne.symm test])
          ⟨op', List.mem_cons_of_mem _ member, isObserving⟩
    | skips was flag effect => exact absurd rfl nonempty
    | refuses was test effect => exact absurd rfl nonempty
    | gives was only => cases startVm_of_pthreadCreate (sound.text.mem was)
    | begins was isCommand only =>
      cases isCommand
      exact (unstarted rfl).elim
    | catches was isBranch only => cases isBranch
    | halts same only => exact before.checked cmd rest query same tested observing
  cases trace_cases h with
  | op at_ effect next unlabelled event => exact same unlabelled
  | moves only unlabelled | kills only unlabelled => exact same unlabelled
  | vcpu side unlabelled => exact same unlabelled
  | @finish task ret at_ event result =>
    obtain ⟨ret', here⟩ := here
    rw [result] at here
    rcases finish_main s ret task with goes | goes | goes <;> rw [goes] at here <;> cases here
  | recv at_ event result =>
    obtain ⟨ret', here⟩ := here
    rw [result] at here
    cases here
    exact (unstarted rfl).elim

theorem standing_step {past : List Label} {s t : State n} {e : Event n} (sound : Sound s)
    (before : Standing past s) (h : step s e = some t) :
    Standing (past ++ (label s e).toList) t :=
  ⟨still_step sound before h, idle_step before h, paused_step sound before h,
    checked_step sound before h⟩

theorem standing_init : Standing [] (init n) where
  still h := by simp [inForce] at h
  idle h := by simp [inForce] at h
  paused _ := by
    refine .inr (.inl (starting_iff.mpr ⟨_, ⟨_, rfl⟩, ?_⟩))
    simp [miniKvmStartVm]
  checked cmd rest _ here := by
    obtain ⟨ret, here⟩ := here
    cases here

/-! ## The chase -/

theorem chased_op {past : List Label} {s t : State n} {task : Task} {ret : MiniKVMError} {op : Op n}
    {rest : List (Op n)} (text : InText s) (before : Chased past s)
    (at_ : s.main = .exec task ret (op :: rest)) (effect : op.Effect s t)
    (next : t.main = op.next s task ret rest) : Chased past t := by
  refine ⟨fun up i => ?_, fun isStored i isCommitted => ?_⟩
  · have := before.empty up i
    by_contra more
    simp [committed_op effect (by simpa using more)] at this
  · have was := committed_op effect isCommitted
    obtain ⟨cmd, rfl, kind⟩ : ∃ cmd, task = .command cmd ∧ cmd.type = .pause := by
      have busy : t.handles .pause = true := handles_of_stored isStored
      rw [handles_op at_ next .pause] at busy
      cases task <;> simp_all [State.handles]
    rw [next_of_pause text kind at_] at next
    have gone : .storeState .paused ∉ rest := by simpa [stored, next, kind] using isStored
    simp only [sends, next, decide_eq_true_eq]
    by_cases stores : op = .storeState .paused
    · -- every signal is still to come
      subst stores
      rcases at_storeState (text _ _ ⟨ret, at_⟩) with ⟨⟨⟩, -⟩ | ⟨⟨⟩, -⟩ | ⟨_, ⟨⟩, kinds⟩
      have tail : rest = miniKvmSendSig .pause ++ miniKvmPauseVm := by simp_all
      exact .inl (by simp [tail, mem_miniKvmSendSig])
    have earlier : stored s = true := by simp [stored, at_, kind, gone, Ne.symm stores]
    have onItsWay := before.chased earlier i was
    simp only [sends, at_, decide_eq_true_eq, List.mem_cons] at onItsWay
    rw [effect.pending]
    rcases onItsWay with (rfl | later) | pending
    · exact .inr (by simp)
    · exact .inl later
    · refine .inr ?_
      cases op with
      | pthreadKill j sig =>
        by_cases same : i = j
        · subst same
          simp [pending]
        · simpa [Function.update_of_ne same] using pending
      | _ => exact pending

theorem chased_finish {past : List Label} {s : State n} {task : Task} {ret : MiniKVMError}
    (before : Chased past s) (inTime : InTime past s .main) (at_ : s.main = .exec task ret []) :
    Chased (past ++ (label s .main).toList) (finish s ret task) := by
  have unstored : stored (finish s ret task) = false := by
    rcases finish_main s ret task with goes | goes | goes <;> simp [stored, goes]
  refine ⟨fun up i => ?_, by simp [unstored]⟩
  rw [finish_vcpus]
  by_cases returns : returnsPause s = true
  · -- a thread that is committed has SIGVMPAUSE in flight, which is too late
    have isStored : stored s = true := by
      unfold returnsPause at returns
      unfold stored
      rw [at_] at returns ⊢
      cases task <;> simp_all
    by_contra more
    rcases before.chased isStored i (by simpa using more) with later | pending
    · simp [sends, at_] at later
    · exact inTime returns i (by simpa using more) pending
  · refine before.empty ?_ i
    rw [label_finish at_, inForce_append] at up
    unfold returnsPause at returns
    rw [at_] at returns
    cases task with
    | command cmd => cases kind : cmd.type <;> simp_all [Task.returned]
    | startVm | signalBranch => exact up

theorem chased_side {past : List Label} {s t : State n} {e : Event n} {i : Fin n}
    (progress : Progress s) (standing : Standing past s) (before : Chased past s)
    (inTime : InTime past s e) (side : VcpuSide s i e t) : Chased past t := by
  have frame := side.frame
  have sameStored : stored t = stored s := by simp only [stored, frame.main]
  have sameSends (j : Fin n) : sends t j = sends s j := by simp only [sends, frame.main]
  -- what a thread that passes the test has read
  have passed (down : s.kvm.state ≠ .paused) (up : s.kvm.state ≠ .running) :
      s.kvm.state = .shutdown := by
    cases state : s.kvm.state <;> simp_all
  constructor
  · intro up j
    by_cases other : j = i
    · subst other
      have was := before.empty up j
      cases side with
      | thread moves =>
        cases moves with
        | passes at_ unpaused =>
          have := (inTime at_ (passed unpaused (standing.still up))).1
          simp [up] at this
        | enters at_ => simp [at_, committed] at was
        | _ => simp [State.goto_vcpus, committed]
      | consumed sent outside => exact was
      | _ => simp [State.goto_vcpus, committed]
    · rw [frame.others j other]
      exact before.empty up j
  · intro isStored j isCommitted
    rw [sameStored] at isStored
    rw [sameSends]
    have was := before.chased isStored j
    by_cases other : j = i
    · subst other
      cases side with
      | thread moves =>
        cases moves with
        | passes at_ unpaused =>
          exact (inTime at_ (passed unpaused (not_running_of_stored progress isStored))).2 isStored
        | enters at_ => exact was (by simp [at_, committed])
        | _ => simp [State.goto_vcpus, committed] at isCommitted
      | @consumed sig sent outside =>
        have window : s.vcpus j = .enterRun := by
          change committed (s.vcpus j) = true at isCommitted
          cases pc : s.vcpus j <;> simp_all [committed]
        by_cases isPause : sig = .pause
        · subst isPause
          simpa using inTime isStored window
        · refine (was isCommitted).imp_right fun pending => ?_
          simpa using (List.mem_erase_of_ne (Ne.symm isPause)).mpr pending
      | _ => simp [State.goto_vcpus, committed] at isCommitted
    · rw [frame.others j other] at isCommitted
      rw [frame.signals j other]
      exact was isCommitted

theorem chased_step {past : List Label} {s t : State n} {e : Event n} (sound : Sound s)
    (standing : Standing past s) (before : Chased past s) (inTime : InTime past s e)
    (h : step s e = some t) : Chased (past ++ (label s e).toList) t := by
  cases trace_cases h with
  | op at_ effect next unlabelled event =>
    rw [unlabelled, Option.toList_none, List.append_nil]
    exact chased_op sound.text before at_ effect next
  | finish at_ event result =>
    subst event result
    exact chased_finish before inTime at_
  | @recv cmd at_ event result =>
    subst event result
    refine ⟨fun up i => before.empty ?_ i, fun isStored => ?_⟩
    · rw [inForce_append] at up
      cases kind : cmd.type <;> simp_all [label]
    · simp only [stored, Bool.and_eq_true, decide_eq_true_eq] at isStored
      exact absurd ((mem_pause_ops isStored.1).mpr (by simp)) isStored.2
  | moves only unlabelled handles gives =>
    rw [unlabelled, Option.toList_none, List.append_nil]
    have vcpus : t.vcpus = s.vcpus := by rw [only]
    refine ⟨fun up i => by rw [vcpus]; exact before.empty up i, fun isStored => ?_⟩
    have busy := handles_of_stored isStored
    rw [handles, handles_of_gives sound.text gives (.inl rfl)] at busy
    cases busy
  | kills only unlabelled =>
    rw [unlabelled, Option.toList_none, List.append_nil, only]
    exact ⟨before.empty, before.chased⟩
  | vcpu side unlabelled =>
    rw [unlabelled, Option.toList_none, List.append_nil]
    exact chased_side sound.progress standing before inTime side

theorem chased_init : Chased [] (init n) where
  empty h := by simp [inForce] at h
  chased h := by simp [stored, init] at h

/-- Every step of the run is one that `InTime` allows. -/
def AllInTime (es : List (Event n)) : Prop := (system n).Steps InTime [] (init n) es

instance (es : List (Event n)) : Decidable (AllInTime es) :=
  inferInstanceAs (Decidable ((system n).Steps InTime [] (init n) es))

/-- No vcpu is inside KVM_RUN while a PAUSE is in force or the guest is observed. -/
def Quiescent (past : List Label) (s : State n) : Prop :=
  (inForce past = true → ∀ i, s.vcpus i ≠ .inRun) ∧
  ∀ task op rest, s.In task (op :: rest) → observes op = true → ∀ i, s.vcpus i ≠ .inRun

/-- In a run in which SIGVMPAUSE is in time for every vcpu, a paused VM is quiescent. -/
theorem paused_quiescent (r : Run n) (inTime : AllInTime r.events) :
    Quiescent ((system n).trace (init n) r.events) r.final := by
  obtain ⟨sound, standing, chased⟩ := (system n).invariant_run
    (fun past s => Sound s ∧ Standing past s ∧ Chased past s)
    (fun past s e t before inTime h => ⟨sound_step before.1 h,
      standing_step before.1 before.2.1 h, chased_step before.1 before.2.1 before.2.2 inTime h⟩)
    ⟨sound_init, standing_init, chased_init⟩ inTime r.reaches
  have outside (up : inForce ((system n).trace (init n) r.events) = true) (i : Fin n) :
      r.final.vcpus i ≠ .inRun := by
    intro inside
    simpa [inside, committed] using chased.empty up i
  refine ⟨outside, fun task op rest here isObserving => outside ?_⟩
  have suffix := sound.text _ _ here
  obtain ⟨cmd, tail, rfl, query, text, untested⟩ := observing_text (sound.text.mem here) isObserving
  have other : op ∉ [Op.lock, .unlessPausedReturn] := by cases op <;> simp_all [observes]
  have inTail := cons_suffix_of_not_mem (text ▸ suffix) other
  exact standing.checked cmd _ query here (fun test => untested (inTail.subset test))
    ⟨op, by simp, isObserving⟩

/-- The vcpu is inside KVM_RUN when SIGVMPAUSE reaches it, and back before PAUSE returns. -/
def pauseInTime : List (Event 1) :=
  [.main, .main, .main, .main, .accept true, .vcpu sole, .vcpu sole, .vcpu sole, .vcpu sole,
    .recv (some { type := .pause }), .main, .main, .main, .deliver sole .pause, .main, .main, .main]

theorem pauseInTime_quiescent :
    Quiescent ((system 1).trace (init 1) pauseInTime)
      (((system 1).run (init 1) pauseInTime).get (by decide)) :=
  paused_quiescent (.ofEvents pauseInTime (by decide)) (by decide)

/-- SIGVMPAUSE reaches the vcpu after its test of the state and before KVM_RUN, where its handler
does nothing; PAUSE returns, the vcpu enters KVM_RUN, and DUMP_MEM reads the memory it runs on. -/
def pauseTooEarly : List (Event 1) :=
  [.main, .main, .main, .main, .accept true, .vcpu sole, .vcpu sole, .vcpu sole,
    .recv (some { type := .pause }), .main, .main, .main, .deliver sole .pause, .main, .main, .main,
    .reply, .vcpu sole, .recv (some { type := .dumpMem }), .main, .main]

theorem pauseTooEarly_not_quiescent :
    ¬ ∀ (n : Nat) (r : Run n), Quiescent ((system n).trace (init n) r.events) r.final := by
  intro all
  obtain ⟨still, -⟩ := all 1 (.ofEvents pauseTooEarly (by decide))
  exact still (by decide) 0 (by decide)

end MiniKvm.Guarantees.Quiescence
