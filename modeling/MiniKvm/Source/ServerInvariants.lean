import MiniKvm.Source.ServerSteps

/-!
# Invariants of the server

Where an access stands in its function decides what has been done and what is still to come. The
`at_` lemmas read that off the program text; the invariants below them hold in every run.
-/
namespace MiniKvm.Source.Server
open Lib.Sync

variable {n : Nat}

/-! ## The program text -/

/-- A suffix whose head is not in the first part lies in the second. -/
theorem cons_suffix_of_not_mem {α : Type*} {x : α} {rest pre post : List α}
    (h : x :: rest <:+ pre ++ post) (notMem : x ∉ pre) : x :: rest <:+ post := by
  rcases List.suffix_or_suffix_of_suffix h (List.suffix_append pre post) with short | long
  · exact short
  · rcases List.suffix_cons_iff.mp long with same | inside
    · exact same ▸ List.suffix_rfl
    · obtain ⟨mid, rfl⟩ := inside
      obtain ⟨front, split⟩ := h
      have front_eq : pre = front ++ x :: mid :=
        List.append_cancel_right (by rw [← split]; simp : pre ++ post = front ++ x :: mid ++ post)
      exact absurd (by rw [front_eq]; simp) notMem

theorem mem_miniKvmSendSig {op : Op n} {sig : VMSignal} :
    op ∈ miniKvmSendSig sig ↔ ∃ i, op = .pthreadKill i sig := by
  simp [miniKvmSendSig, eq_comm]

/-- The accesses of a function before it touches the pause protocol. -/
def Op.opening : Op n → Bool
  | .lock | .storeState _ | .pthreadKill _ _ | .pthreadCreate _ => true
  | _ => false

/-- The accesses of a task from the pause protocol on. -/
def Task.coda : Task → List (Op n)
  | .command cmd =>
    match cmd.type with
    | .pause => miniKvmPauseVm
    | .resume => miniKvmResumeVm
    | .shutdown => .ifPaused :: miniKvmResumeVm
    | _ => handlers cmd
  | .startVm | .signalBranch => []

theorem Task.ops_eq (task : Task) :
    ∃ pre : List (Op n), task.ops = pre ++ task.coda ∧ ∀ op ∈ pre, op.opening = true := by
  cases task with
  | startVm =>
    refine ⟨miniKvmStartVm, by simp [ops, coda], fun op member => ?_⟩
    obtain ⟨i, -, rfl⟩ | rfl : (∃ i, i ∈ List.finRange n ∧ .pthreadCreate i = op) ∨
        op = .storeState .running := by
      simpa [miniKvmStartVm] using member
    · rfl
    · rfl
  | signalBranch =>
    exact ⟨Server.signalBranch, by simp [ops, coda],
      by simp [Server.signalBranch, miniKvmSendSig, Op.opening]⟩
  | command cmd =>
    cases kind : cmd.type with
    | pause =>
      exact ⟨.lock :: .storeState .paused :: miniKvmSendSig .pause,
        by simp [ops, coda, kind, miniKvmStatusHandleCommand, handlers, statusHandlePause],
        by simp [miniKvmSendSig, Op.opening]⟩
    | resume =>
      exact ⟨.lock :: .storeState .running :: miniKvmSendSig .resume,
        by simp [ops, coda, kind, miniKvmStatusHandleCommand, handlers, statusHandleResume],
        by simp [miniKvmSendSig, Op.opening]⟩
    | shutdown =>
      exact ⟨.lock :: .storeState .shutdown :: miniKvmSendSig .shutdown,
        by simp [ops, coda, kind, miniKvmStatusHandleCommand, handlers, statusHandleShutdown],
        by simp [miniKvmSendSig, Op.opening]⟩
    | _ =>
      exact ⟨[.lock], by simp [ops, coda, kind, miniKvmStatusHandleCommand],
        by simp [Op.opening]⟩

/-- An access of the pause protocol stands in the coda. -/
theorem coda_of_suffix {task : Task} {op : Op n} {rest : List (Op n)}
    (h : op :: rest <:+ task.ops) (notOpening : op.opening = false) : op :: rest <:+ task.coda := by
  obtain ⟨pre, split, all⟩ := task.ops_eq (n := n)
  rw [split] at h
  refine cons_suffix_of_not_mem h fun member => ?_
  simp [all op member] at notOpening

/-- The protocol accesses of a command, by its type. -/
theorem coda_cases {task : Task} {op : Op n} {rest : List (Op n)} (h : op :: rest <:+ task.coda) :
    ∃ cmd, task = .command cmd ∧
      (cmd.type = .pause ∧ op :: rest <:+ miniKvmPauseVm ∨
        cmd.type = .resume ∧ op :: rest <:+ miniKvmResumeVm ∨
        cmd.type = .shutdown ∧ op :: rest <:+ .ifPaused :: miniKvmResumeVm ∨
        cmd.type = .showState ∧ op = .readState ∧ rest = [] ∨
        (cmd.type = .showRegs ∨ cmd.type = .dumpMem) ∧
          (op = .unlessPausedReturn ∨ op = .dumpMem ∨ ∃ i, op = .getRegs i)) := by
  have member := h.subset List.mem_cons_self
  cases task with
  | startVm | signalBranch => simp [Task.coda] at member
  | command cmd =>
    refine ⟨cmd, rfl, ?_⟩
    cases kind : cmd.type with
    | none => simp [Task.coda, handlers, statusHandleNone, kind] at member
    | pause | resume | shutdown => simpa [Task.coda, kind] using h
    | showState =>
      simpa [Task.coda, handlers, statusHandleCmdState, kind, List.suffix_cons_iff] using h
    | showRegs =>
      simp only [Task.coda, handlers, statusHandleRegs, kind, List.mem_cons, List.mem_map] at member
      obtain rfl | ⟨i, -, rfl⟩ := member <;> simp
    | dumpMem =>
      simp only [Task.coda, handlers, statusHandleDumpMem, kind, List.mem_cons,
        List.not_mem_nil, or_false] at member
      obtain rfl | rfl := member <;> simp

theorem at_storePaused {task : Task} {v : UInt64} {rest : List (Op n)}
    (h : .storePaused v :: rest <:+ task.ops) :
    ∃ cmd, task = .command cmd ∧
      (cmd.type = .pause ∧ v = 1 ∧ rest = [] ∨
        cmd.type.Releases ∧ v = 0 ∧ rest = [.signalPauseCond, .unlockPause]) := by
  obtain ⟨cmd, rfl, cases_⟩ := coda_cases (coda_of_suffix h rfl)
  refine ⟨cmd, rfl, ?_⟩
  simp only [miniKvmPauseVm, miniKvmResumeVm, List.suffix_cons_iff, List.suffix_nil] at cases_
  simp only [CommandType.Releases]
  grind

theorem at_unlockPause {task : Task} {rest : List (Op n)} (h : .unlockPause :: rest <:+ task.ops) :
    ∃ cmd, task = .command cmd ∧ cmd.type.Releases ∧ rest = [] := by
  obtain ⟨cmd, rfl, cases_⟩ := coda_cases (coda_of_suffix h rfl)
  refine ⟨cmd, rfl, ?_⟩
  simp only [miniKvmPauseVm, miniKvmResumeVm, List.suffix_cons_iff, List.suffix_nil] at cases_
  simp only [CommandType.Releases]
  grind

theorem at_lockPause {task : Task} {rest : List (Op n)} (h : .lockPause :: rest <:+ task.ops) :
    ∃ cmd, task = .command cmd ∧ cmd.type = .pause ∧ rest = [.storePaused 1] := by
  obtain ⟨cmd, rfl, cases_⟩ := coda_cases (coda_of_suffix h rfl)
  refine ⟨cmd, rfl, ?_⟩
  simp only [miniKvmPauseVm, miniKvmResumeVm, List.suffix_cons_iff, List.suffix_nil] at cases_
  grind

theorem at_ifPaused {task : Task} {rest : List (Op n)} (h : .ifPaused :: rest <:+ task.ops) :
    ∃ cmd, task = .command cmd ∧ cmd.type = .shutdown ∧ rest = miniKvmResumeVm := by
  obtain ⟨cmd, rfl, cases_⟩ := coda_cases (coda_of_suffix h rfl)
  refine ⟨cmd, rfl, ?_⟩
  simp only [miniKvmPauseVm, miniKvmResumeVm, List.suffix_cons_iff, List.suffix_nil] at cases_ ⊢
  grind

theorem at_guarded {task : Task} {op : Op n} {rest : List (Op n)} (h : op :: rest <:+ task.ops)
    (guarded : op.guarded = true) :
    ∃ cmd, task = .command cmd ∧ (cmd.type = .showRegs ∨ cmd.type = .dumpMem) := by
  have notOpening : op.opening = false := by cases op <;> simp_all [Op.guarded, Op.opening]
  obtain ⟨cmd, rfl, cases_⟩ := coda_cases (coda_of_suffix h notOpening)
  refine ⟨cmd, rfl, ?_⟩
  simp only [miniKvmPauseVm, miniKvmResumeVm, List.suffix_cons_iff, List.suffix_nil] at cases_
  grind [Op.guarded]

/-- A store of `kvm->state` is the first access of its function after `kvm->lock`, or the last of
mini_kvm_start_vm. -/
theorem at_storeState {task : Task} {v : VMState} {rest : List (Op n)}
    (h : .storeState v :: rest <:+ task.ops) :
    task = .startVm ∧ v = .running ∧ rest = [] ∨
      task = .signalBranch ∧ v = .shutdown ∧ rest = miniKvmSendSig .shutdown ∨
      ∃ cmd, task = .command cmd ∧
        (cmd.type = .pause ∧ v = .paused ∧ rest = miniKvmSendSig .pause ++ miniKvmPauseVm ∨
          cmd.type = .resume ∧ v = .running ∧ rest = miniKvmSendSig .resume ++ miniKvmResumeVm ∨
          cmd.type = .shutdown ∧ v = .shutdown ∧
            rest = miniKvmSendSig .shutdown ++ .ifPaused :: miniKvmResumeVm) := by
  -- no store of `kvm->state` follows the first one
  have first {w : VMState} {sig : VMSignal} {coda : List (Op n)} (none : ∀ x, .storeState x ∉ coda)
      (inside : .storeState v :: rest <:+ .storeState w :: (miniKvmSendSig sig ++ coda)) :
      v = w ∧ rest = miniKvmSendSig sig ++ coda := by
    rcases List.suffix_cons_iff.mp inside with same | later
    · obtain ⟨head, tail⟩ := List.cons.inj same
      exact ⟨Op.storeState.inj head, tail⟩
    · have member := later.subset List.mem_cons_self
      simp [mem_miniKvmSendSig, none] at member
  cases task with
  | startVm =>
    have := cons_suffix_of_not_mem h (by simp)
    simpa [List.suffix_cons_iff] using this
  | signalBranch =>
    have body : .storeState v :: rest <:+
        .storeState .shutdown :: (miniKvmSendSig .shutdown ++ ([] : List (Op n))) := by
      rw [List.append_nil]
      exact h
    obtain ⟨same, tail⟩ := first (by simp) body
    exact .inr (.inl ⟨rfl, same, by rw [tail, List.append_nil]⟩)
  | command cmd =>
    refine .inr (.inr ⟨cmd, rfl, ?_⟩)
    have afterLock : .storeState v :: rest <:+ [Op.lock] ++ handlers cmd := h
    have body := cons_suffix_of_not_mem afterLock (by simp)
    cases kind : cmd.type with
    | pause =>
      simp only [handlers, kind] at body
      exact .inl ⟨rfl, first (by simp [miniKvmPauseVm]) body⟩
    | resume =>
      simp only [handlers, kind] at body
      exact .inr (.inl ⟨rfl, first (by simp [miniKvmResumeVm]) body⟩)
    | shutdown =>
      simp only [handlers, kind] at body
      exact .inr (.inr ⟨rfl, first (by simp [miniKvmResumeVm]) body⟩)
    | none | showState | showRegs | dumpMem =>
      have member := body.subset List.mem_cons_self
      simp [handlers, kind, statusHandleNone, statusHandleCmdState, statusHandleRegs,
        statusHandleDumpMem] at member

theorem mem_pause_ops {cmd : MiniKvmStatusCommand} (kind : cmd.type = .pause) {op : Op n} :
    op ∈ (Task.command cmd).ops ↔ op = .lock ∨ op = .storeState .paused ∨
      (∃ i, op = .pthreadKill i .pause) ∨ op = .lockPause ∨ op = .storePaused 1 := by
  simp [Task.ops, miniKvmStatusHandleCommand, handlers, kind, statusHandlePause, miniKvmPauseVm,
    mem_miniKvmSendSig]

theorem mem_resume_ops {cmd : MiniKvmStatusCommand} (kind : cmd.type = .resume) {op : Op n} :
    op ∈ (Task.command cmd).ops ↔ op = .lock ∨ op = .storeState .running ∨
      (∃ i, op = .pthreadKill i .resume) ∨ op ∈ miniKvmResumeVm := by
  simp [Task.ops, miniKvmStatusHandleCommand, handlers, kind, statusHandleResume,
    mem_miniKvmSendSig]

theorem mem_shutdown_ops {cmd : MiniKvmStatusCommand} (kind : cmd.type = .shutdown) {op : Op n} :
    op ∈ (Task.command cmd).ops ↔ op = .lock ∨ op = .storeState .shutdown ∨
      (∃ i, op = .pthreadKill i .shutdown) ∨ op = .ifPaused ∨ op ∈ miniKvmResumeVm := by
  simp [Task.ops, miniKvmStatusHandleCommand, handlers, kind, statusHandleShutdown,
    mem_miniKvmSendSig]

theorem lock_not_mem_handlers (cmd : MiniKvmStatusCommand) : (.lock : Op n) ∉ handlers cmd := by
  cases kind : cmd.type <;>
    simp [handlers, kind, statusHandleNone, statusHandlePause, statusHandleResume,
      statusHandleShutdown, statusHandleCmdState, statusHandleRegs, statusHandleDumpMem,
      miniKvmPauseVm, miniKvmResumeVm, mem_miniKvmSendSig]

/-- `kvm->lock` is the first access of a command, and no other access is. -/
theorem at_lock {task : Task} {rest : List (Op n)} (h : .lock :: rest <:+ task.ops) :
    ∃ cmd, task = .command cmd ∧ rest = handlers cmd ∧ .lock ∉ rest := by
  have member := h.subset List.mem_cons_self
  cases task with
  | startVm => simp [Task.ops, miniKvmStartVm] at member
  | signalBranch => simp [Task.ops, signalBranch, mem_miniKvmSendSig] at member
  | command cmd =>
    have inside : .lock :: rest <:+ .lock :: handlers cmd := h
    rcases List.suffix_cons_iff.mp inside with same | later
    · obtain rfl := (List.cons.inj same).2
      exact ⟨cmd, rfl, rfl, lock_not_mem_handlers cmd⟩
    · exact absurd (later.subset List.mem_cons_self) (lock_not_mem_handlers cmd)

/-- The accesses of the queries. -/
theorem mem_query_ops {cmd : MiniKvmStatusCommand} (kind : ¬ cmd.type.Changes) {op : Op n}
    (member : op ∈ (Task.command cmd).ops) :
    op = .lock ∨ op = .readState ∨ op.guarded = true := by
  simp only [CommandType.Changes, CommandType.Releases, not_or] at kind
  have body : op = .lock ∨ op ∈ handlers cmd := by
    simpa [Task.ops, miniKvmStatusHandleCommand] using member
  rcases body with rfl | body
  · exact .inl rfl
  cases type : cmd.type with
  | pause => exact absurd type kind.1
  | resume => exact absurd type kind.2.1
  | shutdown => exact absurd type kind.2.2
  | none => simp [handlers, type, statusHandleNone] at body
  | showState => simp_all [handlers, statusHandleCmdState]
  | showRegs =>
    simp only [handlers, type, statusHandleRegs, List.mem_cons, List.mem_map] at body
    obtain rfl | ⟨i, -, rfl⟩ := body <;> simp [Op.guarded]
  | dumpMem =>
    simp only [handlers, type, statusHandleDumpMem, List.mem_cons, List.not_mem_nil,
      or_false] at body
    obtain rfl | rfl := body <;> simp [Op.guarded]

/-- The stores of a command, by its type. -/
theorem stores_of_mem {cmd : MiniKvmStatusCommand} {op : Op n}
    (member : op ∈ (Task.command cmd).ops) :
    (∀ v, op = .storePaused v → cmd.type = .pause ∧ v = 1 ∨ cmd.type.Releases ∧ v = 0) ∧
      ∀ v, op = .storeState v → cmd.type = .pause ∧ v = .paused ∨
        cmd.type = .resume ∧ v = .running ∨ cmd.type = .shutdown ∧ v = .shutdown := by
  by_cases changes : cmd.type.Changes
  · rcases changes with kind | kind | kind
    · rw [mem_pause_ops kind] at member
      grind
    · simp only [mem_resume_ops kind, miniKvmResumeVm, List.mem_cons] at member
      grind [CommandType.Releases]
    · simp only [mem_shutdown_ops kind, miniKvmResumeVm, List.mem_cons] at member
      grind [CommandType.Releases]
  · have := mem_query_ops changes member
    grind [Op.guarded]

theorem startVm_of_pthreadCreate {task : Task} {i : Fin n} (member : .pthreadCreate i ∈ task.ops) :
    task = .startVm := by
  cases task with
  | startVm => rfl
  | signalBranch => simp [Task.ops, signalBranch, mem_miniKvmSendSig] at member
  | command cmd =>
    by_cases changes : cmd.type.Changes
    · rcases changes with kind | kind | kind
      · simp [mem_pause_ops kind] at member
      · simp [mem_resume_ops kind, miniKvmResumeVm] at member
      · simp [mem_shutdown_ops kind, miniKvmResumeVm] at member
    · simpa [Op.guarded] using mem_query_ops changes member

/-! ## Every run -/

/-- What is left of a function is a suffix of its text. -/
def InText (s : State n) : Prop := ∀ task rest, s.In task rest → rest <:+ task.ops

theorem InText.mem {s : State n} (text : InText s) {task : Task} {op : Op n} {rest : List (Op n)}
    (here : s.In task (op :: rest)) : op ∈ task.ops :=
  (text _ _ here).subset List.mem_cons_self

theorem inText_step {s t : State n} {e : Event n} (before : InText s) (h : step s e = some t) :
    InText t := by
  intro task rest here
  cases step_in h here with
  | stays same side => exact before _ _ same
  | runs was effect flag paused => exact (List.suffix_cons _ _).trans (before _ _ was)
  | skips was flag effect => exact List.nil_suffix
  | refuses was query effect => exact List.nil_suffix
  | gives was only =>
    -- the loop of mini_kvm_start_vm breaks to the last store
    rw [startVm_of_pthreadCreate (before.mem was)]
    exact List.suffix_append _ _
  | begins was isCommand only => rw [isCommand]; exact List.suffix_rfl
  | catches was isBranch only => rw [isBranch]; exact List.suffix_rfl
  | halts same only => exact before _ _ same

theorem inText_init : InText (init n) := by
  rintro task rest ⟨ret, here⟩
  cases here
  exact List.suffix_rfl

/-- Where the main thread goes on without an access, it is in a query or in no command. -/
theorem handles_of_gives {s : State n} (text : InText s)
    (gives : ∀ task ret rest, s.main = .exec task ret rest →
      ∃ op, rest.head? = some op ∧ (op.guarded = true ∨ ∃ i, op = .pthreadCreate i))
    {type : CommandType} (changes : type.Changes) : s.handles type = false := by
  unfold State.handles
  split
  · next cmd ret rest at_ =>
    obtain ⟨op, head, kind⟩ := gives _ _ _ at_
    obtain ⟨rest, rfl⟩ := List.head?_eq_some_iff.mp head
    rcases kind with query | ⟨i, rfl⟩
    · obtain ⟨_, same, kind⟩ := at_guarded (text _ _ ⟨ret, at_⟩) query
      cases same
      rcases kind with kind | kind <;> rw [kind] <;>
        rcases changes with rfl | rfl | rfl <;> rfl
    · cases startVm_of_pthreadCreate (text.mem ⟨ret, at_⟩)
  · rfl

/-- Once the access `x` of a command is behind the main thread, `Q` holds: `x` establishes it, and
neither the other accesses nor the vcpu threads undo it. -/
theorem behind_step (x : Op n) (Q : State n → Prop) {s t : State n} {e : Event n}
    {cmd : MiniKvmStatusCommand} (text : InText s) (h : step s e = some t)
    (before : ∀ rest, s.In (.command cmd) rest → x ∉ rest → Q s)
    (changes : cmd.type.Changes) (inside : x ∈ (Task.command cmd).ops) (notTest : x ≠ .ifPaused)
    (vcpu : ∀ i, VcpuFrame s i t → Q s → Q t) (killed : Q s → Q { s with killed := true })
    (establishes : x.Effect s t → Q t)
    (keeps : ∀ op ∈ (Task.command cmd).ops, op.Effect s t → Q s → Q t)
    (skipped : cmd.type = .shutdown → s.kvm.paused = 0 → Op.ifPaused.Effect s t →
      (x ∈ miniKvmResumeVm ∨ Q s) → Q t) :
    ∀ rest, t.In (.command cmd) rest → x ∉ rest → Q t := by
  intro rest here done
  cases step_in h here with
  | stays same side => exact vcpu _ side.frame (before _ same done)
  | @runs op _ was effect flag paused =>
    by_cases isX : op = x
    · exact establishes (isX ▸ effect)
    · exact keeps op (text.mem was) effect (before _ was (by simp [done, Ne.symm isX]))
  | skips was flag effect =>
    obtain ⟨_, same, kind, tail⟩ := at_ifPaused (text _ _ was)
    cases same
    refine skipped kind flag effect ?_
    by_cases later : x ∈ miniKvmResumeVm
    · exact .inl later
    · exact .inr (before _ was (by simp [tail, later, notTest]))
  | refuses was query effect =>
    obtain ⟨_, same, kind⟩ := at_guarded (text _ _ was) query
    cases same
    rcases kind with kind | kind <;> simp [kind, CommandType.Changes, CommandType.Releases] at changes
  | gives was only => cases startVm_of_pthreadCreate (text.mem was)
  | begins was isCommand only => cases isCommand; exact absurd inside done
  | catches was isBranch only => cases isBranch
  | halts same only => exact only ▸ killed (before _ same done)

/-- A handler stores to `kvm->state` once, and a vcpu thread may then store MINI_KVM_SHUTDOWN. -/
theorem behind_storeState (own : VMState) (P : VMState → Prop) {s t : State n} {e : Event n}
    {cmd : MiniKvmStatusCommand} (text : InText s) (h : step s e = some t)
    (before : ∀ rest, s.In (.command cmd) rest → .storeState own ∉ rest → P s.kvm.state)
    (changes : cmd.type.Changes) (inside : Op.storeState (n := n) own ∈ (Task.command cmd).ops)
    (stored : P own) (down : P .shutdown) :
    ∀ rest, t.In (.command cmd) rest → .storeState own ∉ rest → P t.kvm.state := by
  refine behind_step (.storeState own) (fun u => P u.kvm.state) text h before changes inside
    (by simp) (fun i frame here => ?_) id (fun effect => ?_) (fun op member effect here => ?_)
    (fun _ _ effect earlier => ?_)
  · rcases frame.state with same | shut
    · rwa [same]
    · rwa [shut]
  · rwa [effect.state]
  · rcases effect.state_cases with ⟨v, rfl, now⟩ | same
    · have only : v = own := by
        have := (stores_of_mem member).2 v rfl
        have := (stores_of_mem inside).2 own rfl
        grind
      rwa [now, only]
    · rwa [same]
  · rw [effect.state]
    simpa [miniKvmResumeVm] using earlier

/-- How far PAUSE, RESUME and SHUTDOWN have brought `kvm->paused` and `kvm->state`. A vcpu thread
may store MINI_KVM_SHUTDOWN at any time, nothing else. -/
structure Progress (s : State n) : Prop where
  raised : ∀ {cmd rest}, cmd.type = .pause → s.In (.command cmd) rest →
    .storePaused 1 ∉ rest → s.kvm.paused ≠ 0
  lowered : ∀ {cmd rest}, cmd.type.Releases → s.In (.command cmd) rest →
    .storePaused 0 ∉ rest → s.kvm.paused = 0
  pausing : ∀ {cmd rest}, cmd.type = .pause → s.In (.command cmd) rest →
    .storeState .paused ∉ rest → s.kvm.state ≠ .running
  resuming : ∀ {cmd rest}, cmd.type = .resume → s.In (.command cmd) rest →
    .storeState .running ∉ rest → s.kvm.state ≠ .paused
  stopping : ∀ {cmd rest}, cmd.type = .shutdown → s.In (.command cmd) rest →
    .storeState .shutdown ∉ rest → s.kvm.state = .shutdown

theorem progress_step {s t : State n} {e : Event n} (text : InText s) (before : Progress s)
    (h : step s e = some t) : Progress t := by
  refine ⟨?_, ?_, ?_, ?_, ?_⟩
  · intro cmd rest kind
    refine behind_step (.storePaused 1) (fun u => u.kvm.paused ≠ 0) text h
      (fun _ => before.raised kind) (.inl kind) (by simp [mem_pause_ops kind]) (by simp)
      (fun i frame => by rw [frame.paused]; exact id) id (fun effect => by simp [effect.paused])
      (fun op member effect => ?_) (fun isShutdown => by simp [kind] at isShutdown) rest
    rcases effect.paused_cases with ⟨v, rfl, stored⟩ | same
    · rcases (stores_of_mem member).1 v rfl with ⟨-, rfl⟩ | ⟨other, -⟩
      · simp [stored]
      · simp [kind, CommandType.Releases] at other
    · simp [same]
  · intro cmd rest kind
    refine behind_step (.storePaused 0) (fun u => u.kvm.paused = 0) text h
      (fun _ => before.lowered kind) (.inr kind) ?_ (by simp)
      (fun i frame => by rw [frame.paused]; exact id) id (fun effect => effect.paused)
      (fun op member effect => ?_) (fun _ flag effect _ => by rw [effect.paused]; exact flag) rest
    · rcases kind with kind | kind
      · simp [mem_resume_ops kind, miniKvmResumeVm]
      · simp [mem_shutdown_ops kind, miniKvmResumeVm]
    · rcases effect.paused_cases with ⟨v, rfl, stored⟩ | same
      · rcases (stores_of_mem member).1 v rfl with ⟨other, -⟩ | ⟨-, rfl⟩
        · simp [other, CommandType.Releases] at kind
        · simp [stored]
      · simp [same]
  · intro cmd rest kind
    exact behind_storeState .paused (· ≠ .running) text h (fun _ => before.pausing kind)
      (.inl kind) (by simp [mem_pause_ops kind]) (by simp) (by simp) rest
  · intro cmd rest kind
    exact behind_storeState .running (· ≠ .paused) text h (fun _ => before.resuming kind)
      (.inr (.inl kind)) (by simp [mem_resume_ops kind]) (by simp) (by simp) rest
  · intro cmd rest kind
    exact behind_storeState .shutdown (· = .shutdown) text h (fun _ => before.stopping kind)
      (.inr (.inr kind)) (by simp [mem_shutdown_ops kind]) rfl rfl rest

theorem progress_init : Progress (init n) := by
  constructor <;> rintro cmd rest - ⟨ret, here⟩ <;> cases here

/-- The handlers of PAUSE, RESUME and SHUTDOWN have no error path. -/
def Succeeds (s : State n) : Prop :=
  ∀ cmd ret rest, s.main = .exec (.command cmd) ret rest → cmd.type.Changes → ret = .success

theorem succeeds_step {s t : State n} {e : Event n} (text : InText s) (before : Succeeds s)
    (h : step s e = some t) : Succeeds t := by
  intro cmd ret rest here changes
  cases step_cases h with
  | @op _ task ret' op rest' _ at_ effect next event =>
    rw [next] at here
    rcases Op.next_cases s task ret' rest' op with ⟨goes, -⟩ | ⟨-, -, goes⟩ | ⟨rfl, -, goes⟩ <;>
      rw [goes] at here <;> cases here
    · exact before _ _ _ at_ changes
    · exact before _ _ _ at_ changes
    · obtain ⟨_, same, kind | kind⟩ := at_guarded (text _ _ ⟨_, at_⟩) rfl <;> cases same <;>
        simp [kind, CommandType.Changes, CommandType.Releases] at changes
  | @finish task ret' at_ =>
    rcases finish_main s ret' task with goes | goes | goes <;> rw [goes] at here <;> cases here
  | createFails at_ =>
    cases here
    cases startVm_of_pthreadCreate (text.mem ⟨_, at_⟩)
  | queryFails at_ query =>
    cases here
    obtain ⟨_, same, kind | kind⟩ := at_guarded (text _ _ ⟨_, at_⟩) query <;> cases same <;>
      simp [kind, CommandType.Changes, CommandType.Releases] at changes
  | recv cmd at_ => cases here; rfl
  | accept connected at_ => cases connected <;> cases here
  | kills => exact before _ _ _ here changes
  | vcpu side => exact before _ _ _ (side.frame.main ▸ here) changes
  | leave at_ | loop at_ | recvEnd at_ | reply at_ | caught at_ | uncaught at_ => cases here

theorem succeeds_init : Succeeds (init n) := by
  rintro cmd ret rest ⟨⟩

/-! ## The start -/

/-- The positions of a vcpu thread that has never passed the test of MINI_KVM_PAUSED. -/
def VcpuPc.BeforeRun : VcpuPc → Prop
  | .unborn | .setup | .testShutdown | .testPaused | .testFlag => True
  | _ => False

/-- While mini_kvm_start_vm creates the threads they spin: MINI_KVM_PAUSED keeps them out of
KVM_RUN, and `paused` 0 keeps them out of pthread_cond_wait. -/
structure Barrier (s : State n) : Prop where
  state : s.kvm.state = .paused
  paused : s.kvm.paused = 0
  before : ∀ i, (s.vcpus i).BeforeRun

theorem barrier_side {s t : State n} {e : Event n} {i : Fin n} (b : Barrier s)
    (side : VcpuSide s i e t) : Barrier t := by
  have here := b.before i
  have spin (pc : VcpuPc) (isBefore : pc.BeforeRun) : ∀ j, ((s.goto i pc).vcpus j).BeforeRun := by
    intro j
    rw [State.goto_vcpus]
    split
    · exact isBefore
    · exact b.before j
  cases side with
  | thread moves =>
    cases moves with
    | setup at_ => exact ⟨b.state, b.paused, spin _ trivial⟩
    | ends at_ down => simp [b.state] at down
    | goesOn at_ up => exact ⟨b.state, b.paused, spin _ trivial⟩
    | seesPaused at_ paused => exact ⟨b.state, b.paused, spin _ trivial⟩
    | passes at_ unpaused => exact absurd b.state unpaused
    | seesFlag at_ flag => exact absurd b.paused flag
    | noFlag at_ flag => exact ⟨b.state, b.paused, spin _ trivial⟩
    | waits at_ | wakes at_ | enters at_ | stops at_ | returns at_ =>
      simp [at_, VcpuPc.BeforeRun] at here
  | exit ret reason inside => simp [inside, VcpuPc.BeforeRun] at here
  | interrupts sent inside => simp [inside, VcpuPc.BeforeRun] at here
  | consumed sent outside => exact ⟨b.state, b.paused, b.before⟩

/-- The thread of vcpu `i` is still to be created. -/
def Awaits (s : State n) (i : Fin n) : Prop :=
  ∃ rest, s.main = .exec .startVm .success rest ∧ .pthreadCreate i ∈ rest

/-- mini_kvm_start_vm has failed, or the main loop is over. -/
def GaveUp (s : State n) : Prop :=
  s.main = .left ∨ ∃ ret rest, ret ≠ .success ∧ s.main = .exec .startVm ret rest

/-- A pthread_create fails in this step. -/
def createFails (s : State n) (e : Event n) : Bool :=
  match e, s.main with
  | .fails, .exec _ _ (.pthreadCreate _ :: _) => true
  | _, _ => false

/-- What holds of the start in every run. -/
structure Startup (s : State n) : Prop where
  closed : ∀ rest, s.In .startVm rest → rest ≠ [] → Barrier s
  unborn : ∀ i, s.vcpus i = .unborn → Awaits s i ∨ GaveUp s
  waiting : ∀ i, s.kvm.pauseCond.waiter i ≠ none ↔ s.vcpus i = .waiting

theorem startVm_ops {op : Op n} {rest : List (Op n)} (h : op :: rest <:+ (Task.startVm).ops) :
    (∃ i, op = .pthreadCreate i) ∧ rest ≠ [] ∨ op = .storeState .running ∧ rest = [] := by
  have member := h.subset List.mem_cons_self
  have : (∃ i, i ∈ List.finRange n ∧ .pthreadCreate i = op) ∨ op = .storeState .running := by
    simpa [Task.ops, miniKvmStartVm] using member
  rcases this with ⟨i, -, rfl⟩ | rfl
  · refine .inl ⟨⟨i, rfl⟩, ?_⟩
    rintro rfl
    -- the last access is the store
    obtain ⟨front, split⟩ := h
    have last := congrArg List.getLast? split
    simp [Task.ops, miniKvmStartVm] at last
  · have last := at_storeState h
    simp at last
    exact .inr ⟨rfl, last⟩

theorem closed_step {s t : State n} {e : Event n} (text : InText s) (before : Startup s)
    (h : step s e = some t) : ∀ rest, t.In .startVm rest → rest ≠ [] → Barrier t := by
  intro rest here more
  cases step_in h here with
  | stays same side => exact barrier_side (before.closed _ same more) side
  | @runs op _ was effect flag paused =>
    have b := before.closed _ was (by simp)
    rcases startVm_ops (text _ _ was) with ⟨⟨i, rfl⟩, -⟩ | ⟨-, last⟩
    · refine ⟨effect.state.trans b.state, effect.paused.trans b.paused, fun j => ?_⟩
      rw [effect.vcpus]
      by_cases same : j = i
      · simp [same, VcpuPc.BeforeRun]
      · simpa [Function.update_of_ne same] using b.before j
    · exact absurd last more
  | skips was flag effect => exact absurd rfl more
  | refuses was query effect => exact absurd rfl more
  | gives was only =>
    have b := before.closed _ was (by simp)
    rw [only]
    exact ⟨b.state, b.paused, b.before⟩
  | begins was isCommand only => cases isCommand
  | catches was isBranch only => cases isBranch
  | halts same only =>
    have b := before.closed _ same more
    rw [only]
    exact ⟨b.state, b.paused, b.before⟩

theorem VcpuSide.unborn {s t : State n} {e : Event n} {i j : Fin n} (side : VcpuSide s i e t)
    (h : t.vcpus j = .unborn) : s.vcpus j = .unborn := by
  by_cases same : j = i
  · subst same
    cases side with
    | thread moves => cases moves <;> simp [State.goto_vcpus] at h
    | exit ret reason inside => simp [State.goto_vcpus] at h
    | interrupts sent inside => simp [State.goto_vcpus] at h
    | consumed sent outside => exact h
  · exact side.frame.others j same ▸ h

theorem Op.Effect.unborn {s t : State n} {op : Op n} {j : Fin n} (effect : op.Effect s t)
    (h : t.vcpus j = .unborn) : s.vcpus j = .unborn ∧ op ≠ .pthreadCreate j := by
  rw [effect.vcpus] at h
  cases op with
  | pthreadCreate i =>
    by_cases same : j = i
    · simp [same] at h
    · exact ⟨by simpa [Function.update_of_ne same] using h, by simp [Ne.symm same]⟩
  | _ => exact ⟨h, by simp⟩

theorem unborn_back {s t : State n} {e : Event n} {i : Fin n} (h : step s e = some t)
    (isUnborn : t.vcpus i = .unborn) : s.vcpus i = .unborn := by
  cases step_cases h with
  | op at_ effect next event => exact (effect.unborn isUnborn).1
  | @finish task ret at_ => cases task <;> exact isUnborn
  | vcpu side => exact side.unborn isUnborn
  | _ => exact isUnborn

theorem awaits_step {s t : State n} {e : Event n} {i : Fin n} (text : InText s)
    (before : Awaits s i) (h : step s e = some t) (isUnborn : t.vcpus i = .unborn) :
    Awaits t i ∨ createFails s e = true ∧ GaveUp t := by
  obtain ⟨rest, starting, stillToCome⟩ := before
  cases step_cases h with
  | @op _ task ret op rest' _ at_ effect next event =>
    obtain ⟨-, notThis⟩ := effect.unborn isUnborn
    rw [at_] at starting
    cases starting
    refine .inl ⟨rest', ?_, by simpa [Ne.symm notThis] using stillToCome⟩
    rw [next]
    rcases startVm_ops (text _ _ ⟨_, at_⟩) with ⟨⟨j, rfl⟩, -⟩ | ⟨rfl, -⟩ <;> rfl
  | finish at_ =>
    rw [at_] at starting
    cases starting
    simp at stillToCome
  | createFails at_ =>
    cases startVm_of_pthreadCreate (text.mem ⟨_, at_⟩)
    exact .inr ⟨by simp [Server.createFails, at_], .inr ⟨_, _, by simp, rfl⟩⟩
  | queryFails at_ query =>
    rw [at_] at starting
    cases starting
    rcases startVm_ops (text _ _ ⟨_, at_⟩) with ⟨⟨j, rfl⟩, -⟩ | ⟨rfl, -⟩ <;> simp [Op.guarded] at query
  | kills => exact .inl ⟨rest, starting, stillToCome⟩
  | vcpu side => exact .inl ⟨rest, side.frame.main ▸ starting, stillToCome⟩
  | leave at_ | loop at_ | accept _ at_ | recv _ at_ | recvEnd at_ | reply at_ | caught at_
  | uncaught at_ =>
    rw [at_] at starting
    cases starting

theorem gaveUp_step {s t : State n} {e : Event n} (text : InText s) (before : GaveUp s)
    (h : step s e = some t) : GaveUp t := by
  rcases before with gone | ⟨ret, rest, failed, starting⟩
  · cases step_cases h with
    | kills => exact .inl gone
    | vcpu side => exact .inl (side.frame.main ▸ gone)
    | op at_ | finish at_ | leave at_ | loop at_ | createFails at_ | queryFails at_
    | accept _ at_ | recv _ at_ | recvEnd at_ | reply at_ | caught at_ | uncaught at_ =>
      rw [at_] at gone
      cases gone
  · cases step_cases h with
    | @op _ _ _ op rest' _ at_ effect next event =>
      rw [at_] at starting
      cases starting
      refine .inr ⟨ret, rest', failed, ?_⟩
      rw [next]
      rcases startVm_ops (text _ _ ⟨_, at_⟩) with ⟨⟨j, rfl⟩, -⟩ | ⟨rfl, -⟩ <;> rfl
    | finish at_ =>
      rw [at_] at starting
      cases starting
      exact .inl (by simp [finish, failed])
    | createFails at_ =>
      rw [at_] at starting
      cases starting
      exact .inr ⟨_, _, by simp, rfl⟩
    | queryFails at_ query =>
      rw [at_] at starting
      cases starting
      exact .inr ⟨_, _, by simp, rfl⟩
    | kills => exact .inr ⟨ret, rest, failed, starting⟩
    | vcpu side => exact .inr ⟨ret, rest, failed, side.frame.main ▸ starting⟩
    | leave at_ | loop at_ | accept _ at_ | recv _ at_ | recvEnd at_ | reply at_ | caught at_
    | uncaught at_ =>
      rw [at_] at starting
      cases starting

theorem unborn_step {s t : State n} {e : Event n} (text : InText s) (before : Startup s)
    (h : step s e = some t) (i : Fin n) (isUnborn : t.vcpus i = .unborn) : Awaits t i ∨ GaveUp t := by
  rcases before.unborn i (unborn_back h isUnborn) with awaits | gaveUp
  · exact (awaits_step text awaits h isUnborn).imp_right And.right
  · exact .inr (gaveUp_step text gaveUp h)

theorem VcpuSide.waiting {s t : State n} {e : Event n} {i : Fin n} (side : VcpuSide s i e t)
    (before : ∀ j, s.kvm.pauseCond.waiter j ≠ none ↔ s.vcpus j = .waiting) :
    t.kvm.pauseCond.waiter i ≠ none ↔ t.vcpus i = .waiting := by
  have here := before i
  cases side with
  | thread moves =>
    cases moves <;> simp_all [State.goto_vcpus, CondVar.wait_waiter, CondVar.leave_waiter]
  | exit ret reason inside => simp_all [State.goto_vcpus]
  | interrupts sent inside => simp_all [State.goto_vcpus]
  | consumed sent outside => exact here

theorem waiting_step {s t : State n} {e : Event n} (before : Startup s) (text : InText s)
    (h : step s e = some t) (i : Fin n) :
    t.kvm.pauseCond.waiter i ≠ none ↔ t.vcpus i = .waiting := by
  have here := before.waiting i
  cases step_cases h with
  | @op _ task ret op rest _ at_ effect next event =>
    have cond := effect.pauseCond
    rw [effect.vcpus]
    cases op with
    | signalPauseCond =>
      rcases cond with ⟨-, same⟩ | ⟨j, woken⟩
      · rw [same]
        exact here
      · obtain ⟨asleep, after⟩ := CondVar.wake_eq_some.mp woken
        rw [after]
        by_cases same : i = j
        · subst same
          simpa [asleep] using here
        · simpa [Function.update_of_ne same] using here
    | pthreadCreate j =>
      rw [cond]
      cases startVm_of_pthreadCreate (text.mem ⟨_, at_⟩)
      have early := (before.closed _ ⟨_, at_⟩ (by simp)).before i
      by_cases same : i = j
      · subst same
        have outside : s.vcpus i ≠ .waiting := fun w => by simp [w, VcpuPc.BeforeRun] at early
        simpa [outside] using here
      · simpa [Function.update_of_ne same] using here
    | _ =>
      rw [cond]
      exact here
  | @finish task ret at_ => cases task <;> exact here
  | @vcpu _ j _ side =>
    by_cases same : i = j
    · exact same ▸ side.waiting before.waiting
    · rw [side.frame.others i same, side.frame.waiters i same]
      exact here
  | _ => exact here

theorem startup_step {s t : State n} {e : Event n} (text : InText s) (before : Startup s)
    (h : step s e = some t) : Startup t :=
  ⟨closed_step text before h, unborn_step text before h, waiting_step before text h⟩

theorem startup_init : Startup (init n) where
  closed _ _ _ := ⟨rfl, rfl, fun _ => trivial⟩
  unborn i _ := .inl ⟨_, rfl, by simp [miniKvmStartVm]⟩
  waiting i := by simp [init]

theorem starting_iff {s : State n} : s.starting = true ↔ ∃ rest, s.In .startVm rest ∧ rest ≠ [] := by
  unfold State.starting State.In
  split
  · next at_ => simp [at_]
  · next other =>
    simp only [Bool.false_eq_true, false_iff]
    rintro ⟨rest, ⟨ret, here⟩, more⟩
    obtain ⟨op, rest, rfl⟩ := List.exists_cons_of_ne_nil more
    exact other _ _ _ here

/-- mini_kvm_start_vm is called once. -/
theorem starting_back {s t : State n} {e : Event n} (h : step s e = some t)
    (starting : t.starting = true) : s.starting = true := by
  obtain ⟨rest, here, more⟩ := starting_iff.mp starting
  refine starting_iff.mpr ?_
  cases step_in h here with
  | stays same side => exact ⟨rest, same, more⟩
  | runs was effect flag paused => exact ⟨_, was, by simp⟩
  | skips was flag effect => exact absurd rfl more
  | refuses was query effect => exact absurd rfl more
  | gives was only => exact ⟨_, was, by simp⟩
  | begins was isCommand only => cases isCommand
  | catches was isBranch only => cases isBranch
  | halts same only => exact ⟨rest, same, more⟩

/-- The start ends with the store of MINI_KVM_RUNNING. -/
theorem starting_kept {s t : State n} {e : Event n} (text : InText s) (h : step s e = some t)
    (starting : s.starting = true) : t.starting = true ∨ t.kvm.state ≠ .paused := by
  obtain ⟨rest, ⟨ret, here⟩, more⟩ := starting_iff.mp starting
  cases step_cases h with
  | @op _ _ _ op rest' _ at_ effect next event =>
    rw [at_] at here
    cases here
    rcases startVm_ops (text _ _ ⟨_, at_⟩) with ⟨⟨j, rfl⟩, later⟩ | ⟨rfl, -⟩
    · exact .inl (starting_iff.mpr ⟨rest', ⟨ret, next⟩, later⟩)
    · exact .inr (by simp [effect.state])
  | finish at_ =>
    rw [at_] at here
    cases here
    exact absurd rfl more
  | createFails at_ =>
    rw [at_] at here
    cases here
    exact .inl rfl
  | queryFails at_ query =>
    rw [at_] at here
    cases here
    obtain ⟨_, other, -⟩ := at_guarded (text _ _ ⟨_, at_⟩) query
    cases other
  | kills => exact .inl (starting_iff.mpr ⟨rest, ⟨ret, here⟩, more⟩)
  | vcpu side => exact .inl (starting_iff.mpr ⟨rest, ⟨ret, side.frame.main ▸ here⟩, more⟩)
  | leave at_ | loop at_ | accept _ at_ | recv _ at_ | recvEnd at_ | reply at_ | caught at_
  | uncaught at_ =>
    rw [at_] at here
    cases here

/-! ## Together -/

/-- What holds in every state of every run from `init`. -/
structure Sound (s : State n) : Prop where
  text : InText s
  progress : Progress s
  succeeds : Succeeds s
  startup : Startup s

theorem sound_step {s t : State n} {e : Event n} (before : Sound s) (h : step s e = some t) :
    Sound t :=
  ⟨inText_step before.text h, progress_step before.text before.progress h,
    succeeds_step before.text before.succeeds h, startup_step before.text before.startup h⟩

theorem sound_init : Sound (init n) := ⟨inText_init, progress_init, succeeds_init, startup_init⟩

/-- A run of the server, from the call of mini_kvm_start_vm. -/
abbrev Run (n : Nat) := (system n).Run (init n)

theorem sound_run {es : List (Event n)} {s : State n} (reaches : (system n).run (init n) es = some s) :
    Sound s :=
  (system n).invariant_reachable (fun _ _ _ before h => sound_step before h) sound_init reaches

end MiniKvm.Source.Server
