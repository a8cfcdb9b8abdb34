import MiniKvm.Source.ServerInvariants

/-!
# Who owns `pause_lock`?

PAUSE locks it, RESUME unlocks it, and both run on the main thread. The vcpu threads call
pthread_cond_wait on it without having locked it: the call gives up what the main thread holds, and
leaves the mutex with the vcpu thread when it returns.
-/
namespace MiniKvm.Guarantees.PauseLock
open Source Source.Server Lib.Sync Lib.Lts

variable {n : Nat}

/-- The commands begun, but for the queries. -/
def changes (past : List Label) : List CommandType :=
  past.filterMap fun l =>
    match l with
    | .began type => if type.Changes then some type else none
    | .returned _ _ => none

/-- PAUSE, RESUME, PAUSE, RESUME, and so on, with queries in between. -/
def TakeTurns (past : List Label) : Prop := Alternates .pause .resume (changes past)

instance (past : List Label) : Decidable (TakeTurns past) :=
  inferInstanceAs (Decidable (Alternates _ _ _))

/-- The command whose turn it is. -/
def due (past : List Label) : CommandType := turn .pause .resume (changes past)

/-- The places of a vcpu thread in the loop `while (kvm->paused)`. -/
def inLoop : VcpuPc → Bool
  | .testFlag | .callWait | .waiting => true
  | _ => false

/-- Every call of pthread_cond_wait is made by the owner of `pause_lock`. -/
def WaitsOwning (_ : List Label) (s : State n) : Event n → Prop
  | .vcpu i => s.vcpus i = .callWait → s.kvm.pauseLock.owner = some (.vcpu i)
  | _ => True

/-- No call of pthread_cond_wait. -/
def WaitsNot (_ : List Label) (s : State n) : Event n → Prop
  | .vcpu i => s.vcpus i ≠ .callWait
  | _ => True

instance (past : List Label) (s : State n) (e : Event n) : Decidable (WaitsOwning past s e) :=
  match e with
  | .vcpu _ => inferInstanceAs (Decidable (_ → _))
  | .main | .wake _ | .fails | .crash | .accept _ | .recv _ | .reply | .brokenPipe | .sigTest _
  | .exit .. | .deliver .. =>
    inferInstanceAs (Decidable True)

instance (past : List Label) (s : State n) (e : Event n) : Decidable (WaitsNot past s e) :=
  match e with
  | .vcpu _ => inferInstanceAs (Decidable (_ ≠ _))
  | .main | .wake _ | .fails | .crash | .accept _ | .recv _ | .reply | .brokenPipe | .sigTest _
  | .exit .. | .deliver .. =>
    inferInstanceAs (Decidable True)

structure Orderly (s : State n) : Prop where
  /-- A vcpu thread outside the loop does not own `pause_lock`. -/
  left : ∀ i, inLoop (s.vcpus i) = false → s.kvm.pauseLock.owner ≠ some (.vcpu i)
  /-- mini_kvm_pause_vm finds it free. -/
  free : ∀ task rest, s.In task (.lockPause :: rest) → s.kvm.pauseLock.owner = none

/-- The discipline, in every step and every state of a run. -/
structure Disciplined (es : List (Event n)) : Prop where
  waits : (system n).Steps WaitsOwning [] (init n) es
  orderly : ∀ as bs s, es = as ++ bs → (system n).run (init n) as = some s → Orderly s

/-- The main thread holds `pause_lock` from PAUSE's lock to RESUME's unlock. -/
def holds (past : List Label) (s : State n) : Bool :=
  match s.main with
  | .exec (.command cmd) _ rest =>
    if cmd.type = .pause then .lockPause ∉ rest
    else if cmd.type = .resume then .unlockPause ∈ rest
    else due past = .resume
  | _ => due past = .resume

/-- As long as no vcpu thread waits, `pause_lock` passes between nobody and the main thread. -/
structure Held (past : List Label) (s : State n) : Prop where
  nobody : ∀ i, s.kvm.pauseCond.waiter i = none
  owner : s.kvm.pauseLock.owner = if holds past s then some .main else none
  pausing : s.handles .pause = true → due past = .resume
  resuming : s.handles .resume = true → due past = .pause
  staysUp : s.handles .shutdown = false

theorem held_init : Held [] (init n) where
  nobody _ := rfl
  owner := rfl
  pausing h := by cases h
  resuming h := by cases h
  staysUp := rfl

theorem Held.orderly {past : List Label} {s : State n} (text : InText s) (held : Held past s) :
    Orderly s := by
  constructor
  · intro i _ owns
    rw [held.owner] at owns
    split at owns <;> cases owns
  · intro task rest here
    obtain ⟨cmd, rfl, kind, -⟩ := at_lockPause (text _ _ here)
    obtain ⟨ret, here⟩ := here
    simp [held.owner, holds, here, kind]

theorem due_append (past : List Label) (l : Option Label) :
    due (past ++ l.toList) = match l with
      | some (.began type) => if type.Changes then turn .resume .pause (changes past) else due past
      | _ => due past := by
  cases l with
  | none => simp
  | some l =>
    cases l with
    | began type =>
      by_cases kind : type.Changes <;> simp [due, changes, kind]
    | returned type ret => simp [due, changes]

/-- A command that begins is the one whose turn it is. -/
theorem due_of_takeTurns {past : List Label} {type : CommandType} (kind : type.Changes)
    (turns : TakeTurns (past ++ [.began type])) : type = due past := by
  have split : changes (past ++ [.began type]) = changes past ++ [type] := by
    simp [changes, kind]
  rw [TakeTurns, split] at turns
  exact (alternates_append_singleton.mp turns).2

/-- Outside PAUSE and RESUME the lock is where the last of them left it. -/
theorem holds_of_idle {past : List Label} {s : State n} (pause : s.handles .pause = false)
    (resume : s.handles .resume = false) : holds past s = decide (due past = .resume) := by
  unfold holds
  unfold State.handles at pause resume
  split
  · next at_ => simp_all
  · rfl

/-- An access signals nobody where nobody waits. -/
theorem nobody_op {s t : State n} {op : Op n} (effect : op.Effect s t)
    (nobody : ∀ i, s.kvm.pauseCond.waiter i = none) : ∀ i, t.kvm.pauseCond.waiter i = none := by
  have same : t.kvm.pauseCond = s.kvm.pauseCond := by
    have := effect.pauseCond
    cases op with
    | signalPauseCond =>
      rcases this with ⟨-, same⟩ | ⟨i, woken⟩
      · exact same
      · simpa [nobody i] using (CondVar.wake_eq_some.mp woken).1
    | _ => exact this
  rw [same]
  exact nobody

theorem held_op {past : List Label} {s t : State n} {task : Task} {ret : MiniKVMError} {op : Op n}
    {rest : List (Op n)} (text : InText s) (held : Held past s)
    (at_ : s.main = .exec task ret (op :: rest)) (effect : op.Effect s t)
    (next : t.main = op.next s task ret rest) : Held past t := by
  have handles (type : CommandType) := handles_op at_ next type
  refine ⟨nobody_op effect held.nobody, ?_, fun h => held.pausing (handles _ ▸ h),
    fun h => held.resuming (handles _ ▸ h),
    (handles _).trans held.staysUp⟩
  have suffix := text _ _ ⟨ret, at_⟩
  have lock := effect.pauseLock
  by_cases locks : op = .lockPause
  · subst locks
    obtain ⟨cmd, rfl, kind, rfl⟩ := at_lockPause suffix
    simp [lock, holds, next, Op.next, kind]
  by_cases unlocks : op = .unlockPause
  · subst unlocks
    obtain ⟨cmd, rfl, kind | kind, rfl⟩ := at_unlockPause suffix
    · simp [lock, holds, next, Op.next, kind]
    · have := held.staysUp
      simp [State.handles, at_, kind] at this
  have same : t.kvm.pauseLock = s.kvm.pauseLock := by
    cases op <;> simp_all
  rw [same, held.owner]
  congr 2
  rcases Op.next_cases s task ret rest op with ⟨goes, -⟩ | ⟨rfl, -, goes⟩ | ⟨rfl, -, goes⟩
  · unfold holds
    rw [at_, next, goes]
    cases task <;> simp [Ne.symm locks, Ne.symm unlocks]
  · obtain ⟨cmd, rfl, kind, -⟩ := at_ifPaused suffix
    have := held.staysUp
    simp [State.handles, at_, kind] at this
  · obtain ⟨cmd, rfl, kind | kind⟩ := at_guarded suffix rfl <;> simp [holds, at_, next, goes, kind]

theorem held_finish {past : List Label} {s : State n} {task : Task} {ret : MiniKVMError}
    (held : Held past s) (at_ : s.main = .exec task ret []) :
    Held (past ++ (label s .main).toList) (finish s ret task) := by
  have idle := handles_finish s ret task
  have same : due (past ++ (label s .main).toList) = due past := by
    rw [due_append, label_finish at_]
    cases task <;> rfl
  refine ⟨?_, ?_, by simp [idle], by simp [idle], idle _⟩
  · rw [finish_pauseCond]
    exact held.nobody
  rw [finish_pauseLock, held.owner, holds_of_idle (idle _) (idle _), same]
  congr 2
  cases task with
  | startVm | signalBranch => simp [holds, at_]
  | command cmd =>
    -- a command that has run to its end leaves the lock as its turn says
    have pausing := held.pausing
    have resuming := held.resuming
    simp only [State.handles, at_, decide_eq_true_eq] at pausing resuming
    by_cases pause : cmd.type = .pause
    · simp [holds, at_, pause, pausing pause]
    · by_cases resume : cmd.type = .resume
      · simp [holds, at_, resume, resuming resume]
      · simp [holds, at_, pause, resume]

theorem held_recv {past : List Label} {s : State n} {cmd : MiniKvmStatusCommand}
    (held : Held past s) (at_ : s.main = .receiving)
    (turns : TakeTurns (past ++ [.began cmd.type])) :
    Held (past ++ [.began cmd.type])
      { s with main := .exec (.command cmd) .success (miniKvmStatusHandleCommand cmd) } := by
  have after := due_append past (some (.began cmd.type))
  simp only [Option.toList_some] at after
  have idle (type : CommandType) : s.handles type = false := by simp [State.handles, at_]
  have before := held.owner
  rw [holds_of_idle (idle _) (idle _)] at before
  by_cases kind : cmd.type.Changes
  · have now := due_of_takeTurns kind turns
    rw [if_pos kind, turn_swap (by simp : CommandType.pause ≠ .resume)] at after
    change due _ = if due past = .pause then .resume else .pause at after
    rcases turn_eq_or .pause .resume (changes past) with pause | resume
    · change due past = .pause at pause
      rw [pause] at now
      have ahead : (.lockPause : Op n) ∈ miniKvmStatusHandleCommand cmd :=
        (mem_pause_ops now).mpr (by simp)
      simp only [pause] at before after
      exact ⟨held.nobody, by simp [before, holds, now, ahead], by simp [after],
        by simp [State.handles, now], by simp [State.handles, now]⟩
    · change due past = .resume at resume
      rw [resume] at now
      have ahead : (.unlockPause : Op n) ∈ miniKvmStatusHandleCommand cmd :=
        (mem_resume_ops now).mpr (by simp [miniKvmResumeVm])
      simp only [resume] at before after
      exact ⟨held.nobody, by simp [before, holds, now, ahead], by simp [State.handles, now],
        by simp [after], by simp [State.handles, now]⟩
  · -- a query
    rw [if_neg kind] at after
    simp only [CommandType.Changes, CommandType.Releases, not_or] at kind
    exact ⟨held.nobody, by simp [before, holds, kind, after], by simp [State.handles, kind],
      by simp [State.handles, kind], by simp [State.handles, kind]⟩

theorem held_side {past : List Label} {s t : State n} {e : Event n} {i : Fin n}
    (held : Held past s) (waitsNot : WaitsNot past s e) (side : VcpuSide s i e t) :
    Held past t := by
  have frame := side.frame
  have handles (type : CommandType) := handles_of_main frame.main type
  have same : holds past t = holds past s := by simp only [holds, frame.main]
  have kvm : t.kvm.pauseLock = s.kvm.pauseLock ∧ t.kvm.pauseCond = s.kvm.pauseCond := by
    cases side with
    | thread moves =>
      cases moves with
      | waits at_ => exact absurd at_ waitsNot
      | wakes at_ woken unowned => simp [held.nobody i] at woken
      | _ => exact ⟨rfl, rfl⟩
    | _ => exact ⟨rfl, rfl⟩
  exact ⟨kvm.2 ▸ held.nobody, by rw [kvm.1, held.owner, same],
    fun h => held.pausing (handles _ ▸ h), fun h => held.resuming (handles _ ▸ h),
    (handles _).trans held.staysUp⟩

theorem held_step {past : List Label} {s t : State n} {e : Event n} (text : InText s)
    (held : Held past s) (turns : TakeTurns (past ++ (label s e).toList))
    (waitsNot : WaitsNot past s e) (h : step s e = some t) :
    Held (past ++ (label s e).toList) t := by
  cases trace_cases h with
  | op at_ effect next unlabelled event =>
    rw [unlabelled, Option.toList_none, List.append_nil]
    exact held_op text held at_ effect next
  | finish at_ event result =>
    subst event result
    exact held_finish held at_
  | recv at_ event result =>
    subst event result
    exact held_recv held at_ turns
  | moves only unlabelled handles gives =>
    have kvm : t.kvm = s.kvm := by rw [only]
    rw [unlabelled, Option.toList_none, List.append_nil]
    refine ⟨kvm ▸ held.nobody, ?_, fun h => held.pausing (handles _ ▸ h),
      fun h => held.resuming (handles _ ▸ h), (handles _).trans held.staysUp⟩
    have pause := handles_of_gives text gives (.inl rfl : CommandType.pause.Changes)
    have resume := handles_of_gives text gives (.inr (.inl rfl) : CommandType.resume.Changes)
    rw [kvm, held.owner, holds_of_idle pause resume,
      holds_of_idle ((handles _).trans pause) ((handles _).trans resume)]
  | kills only unlabelled =>
    rw [unlabelled, Option.toList_none, List.append_nil, only]
    exact ⟨held.nobody, held.owner, held.pausing, held.resuming, held.staysUp⟩
  | vcpu side unlabelled =>
    rw [unlabelled, Option.toList_none, List.append_nil]
    exact held_side held waitsNot side

/-- The main thread owns `pause_lock` or nobody does, so a wait with the lock is no wait. -/
theorem waitsOwning_iff {past : List Label} {s : State n} (held : Held past s) (e : Event n) :
    WaitsOwning past s e ↔ WaitsNot past s e := by
  cases e with
  | vcpu i =>
    have owner := held.owner
    simp only [WaitsOwning, WaitsNot]
    grind
  | _ => exact Iff.rfl

theorem takeTurns_left (past more : List Label) (h : TakeTurns (past ++ more)) :
    TakeTurns past := by
  rw [TakeTurns, changes, List.filterMap_append] at h
  exact h.left

/-- The discipline holds in exactly the runs in which no vcpu thread calls pthread_cond_wait. -/
theorem disciplined_iff_waitsNot (r : Run n)
    (turns : TakeTurns ((system n).trace (init n) r.events)) :
    Disciplined r.events ↔ (system n).Steps WaitsNot [] (init n) r.events := by
  have given : (system n).Steps (fun past s e => TakeTurns (past ++ (label s e).toList)) [] (init n)
      r.events := (system n).steps_of_trace takeTurns_left r.reaches turns
  have start : Sound (init n) ∧ Held [] (init n) := ⟨sound_init, held_init⟩
  have preserved (past : List Label) (s : State n) (e : Event n) (t : State n)
      (before : Sound s ∧ Held past s)
      (allowed : TakeTurns (past ++ (label s e).toList) ∧ WaitsNot past s e)
      (h : step s e = some t) : Sound t ∧ Held (past ++ (label s e).toList) t :=
    ⟨sound_step before.1 h, held_step before.1.text before.2 allowed.1 allowed.2 h⟩
  have waits : (system n).Steps WaitsOwning [] (init n) r.events ↔
      (system n).Steps WaitsNot [] (init n) r.events := by
    refine (system n).steps_congr (fun past s => Sound s ∧ Held past s) ?_ ?_ start given r.reaches
    · intro past s e t before turns owning h
      exact preserved past s e t before ⟨turns, (waitsOwning_iff before.2 e).mp owning⟩ h
    · exact fun past s e t before _ => waitsOwning_iff before.2 e
  refine ⟨fun d => waits.mp d.waits, fun waitsNot => ⟨waits.mpr waitsNot, ?_⟩⟩
  intro as bs s split hs
  have allowed := (system n).steps_left (split ▸ (system n).steps_and given waitsNot)
  obtain ⟨sound, held⟩ := (system n).invariant_run (fun past s => Sound s ∧ Held past s)
    preserved start allowed hs
  exact held.orderly sound.text

/-- PAUSE and RESUME, with the vcpu inside KVM_RUN throughout. -/
def quickPause : List (Event 1) :=
  [.main, .main, .main, .main, .accept true, .vcpu sole, .vcpu sole, .vcpu sole, .vcpu sole,
    .recv (some { type := .pause }), .main, .main, .main, .main, .main, .main, .reply,
    .recv (some { type := .resume }), .main, .main, .main, .main, .main, .main, .main]

theorem quickPause_disciplined : Disciplined quickPause :=
  (disciplined_iff_waitsNot (.ofEvents quickPause (by decide)) (by decide)).mpr (by decide)

/-- PAUSE, RESUME, PAUSE: the vcpu waits on the first, leaves with the lock, and the second PAUSE
finds it owned. -/
def secondPause : List (Event 1) :=
  [.main, .vcpu sole, .main, .main, .main, .accept true, .recv (some { type := .pause }), .main,
    .main, .main, .main, .main, .main, .reply, .vcpu sole, .vcpu sole, .vcpu sole, .vcpu sole,
    .recv (some { type := .resume }), .main, .main, .main, .main, .wake sole, .main, .main, .reply,
    .vcpu sole, .vcpu sole, .recv (some { type := .pause }), .main, .main, .main]

theorem secondPause_deadlocks :
    ¬ ∀ (n : Nat) (r : Run n), TakeTurns ((system n).trace (init n) r.events) →
      Disciplined r.events := by
  intro all
  have orderly := (all 1 (.ofEvents secondPause (by decide)) (by decide)).orderly secondPause []
    _ (List.append_nil _).symm (Option.some_get (by decide)).symm
  have free := orderly.free (.command { type := .pause }) [.storePaused 1] ⟨.success, by decide⟩
  exact absurd free (by decide)

end MiniKvm.Guarantees.PauseLock
