import MiniKvm.Source.ServerInvariants

/-!
# Who is still asleep after RESUME and SHUTDOWN?

mini_kvm_resume_vm clears `paused` and signals `pause_cond` once. A vcpu thread that waits is woken
by it only if it is the one waiter the signal picks, and only if it waits already: between its test
of `paused` and its call of pthread_cond_wait it holds no lock that would keep the signal back.
-/
namespace MiniKvm.Guarantees.Wakeup
open Source Source.Server Lib.Sync

variable {n : Nat}

/-- RESUME or SHUTDOWN has returned, and no PAUSE has begun since. -/
def released (past : List Label) : Bool :=
  past.foldl (fun r l =>
    match l with
    | .began .pause => false
    | .returned .resume _ | .returned .shutdown _ => true
    | _ => r) false

/-- The next access of the main thread is the signal of mini_kvm_resume_vm. -/
def aboutToSignal (s : State n) : Bool :=
  match s.main with
  | .exec _ _ (.signalPauseCond :: _) => true
  | _ => false

instance (c : CondVar (Fin n)) : Decidable c.AtMostOneAsleep :=
  inferInstanceAs (Decidable (∀ _ _, _ → _ → _))

/-- The signal finds at most one thread asleep, and no thread goes to sleep when the flag it tested
has been cleared and the signal for it has passed. -/
def Heard (past : List Label) (s : State n) : Event n → Prop
  | .main | .wake _ => aboutToSignal s = true → s.kvm.pauseCond.AtMostOneAsleep
  | .vcpu i => s.vcpus i = .callWait →
    s.kvm.paused ≠ 0 ∨ s.handles .pause = true ∨ aboutToSignal s = true ∧ released past = false
  | _ => True

instance (past : List Label) (s : State n) (e : Event n) : Decidable (Heard past s e) :=
  match e with
  | .main | .wake _ | .vcpu _ => inferInstanceAs (Decidable (_ → _))
  | .fails | .crash | .accept _ | .recv _ | .reply | .brokenPipe | .sigTest _ | .exit ..
  | .deliver .. =>
    inferInstanceAs (Decidable True)

/-- A sleeper has `paused` set, or a PAUSE on its way to set it, or the signal still to come. -/
structure Watched (past : List Label) (s : State n) : Prop where
  quiet : released past = true → s.kvm.paused = 0 ∧ s.handles .pause = false
  asleep : ∀ i, s.kvm.pauseCond.waiter i = some .asleep →
    s.kvm.paused ≠ 0 ∨ s.handles .pause = true ∨ aboutToSignal s = true ∧ released past = false

theorem Watched.nobodyAsleep {past : List Label} {s : State n} (w : Watched past s)
    (up : released past = true) : s.kvm.pauseCond.NobodyAsleep := by
  intro i asleep
  obtain ⟨low, other⟩ := w.quiet up
  simpa [low, other, up] using w.asleep i asleep

theorem Watched.sleeper {past : List Label} {s : State n} (w : Watched past s) {i : Fin n}
    (silent : aboutToSignal s = false) (asleep : s.kvm.pauseCond.waiter i = some .asleep) :
    s.kvm.paused ≠ 0 ∨ s.handles .pause = true := by
  simpa [silent] using w.asleep i asleep

theorem watched_init : Watched [] (init n) where
  quiet h := by simp [released] at h
  asleep i h := by simp [init] at h

theorem aboutToSignal_eq_false {s : State n} {task : Task} {ret : MiniKVMError} {op : Op n}
    {rest : List (Op n)} (at_ : s.main = .exec task ret (op :: rest)) (other : op ≠ .signalPauseCond) :
    aboutToSignal s = false := by
  unfold aboutToSignal
  rw [at_]
  cases op <;> simp_all

theorem watched_op {past : List Label} {s t : State n} {task : Task} {ret : MiniKVMError} {op : Op n}
    {rest : List (Op n)} (text : InText s) (w : Watched past s)
    (one : aboutToSignal s = true → s.kvm.pauseCond.AtMostOneAsleep)
    (at_ : s.main = .exec task ret (op :: rest)) (effect : op.Effect s t)
    (next : t.main = op.next s task ret rest) : Watched past t := by
  have handles := handles_op at_ next .pause
  rcases effect.paused_cases with ⟨v, rfl, stored⟩ | same
  · have cond : t.kvm.pauseCond = s.kvm.pauseCond := effect.pauseCond
    have silent := aboutToSignal_eq_false at_ (by simp)
    obtain ⟨cmd, rfl, ⟨kind, rfl, -⟩ | ⟨kind, rfl, rfl⟩⟩ := at_storePaused (text _ _ ⟨_, at_⟩)
    · -- PAUSE: nothing is promised while it is handled
      have busy : s.handles .pause = true := by simp [State.handles, at_, kind]
      refine ⟨fun up => ?_, fun i _ => .inr (.inl (handles.trans busy))⟩
      simp [(w.quiet up).2] at busy
    · -- the flag is cleared, and the signal is the next access
      have idle : s.handles .pause = false := by
        rcases kind with kind | kind <;> simp [State.handles, at_, kind]
      refine ⟨fun _ => ⟨stored, handles.trans idle⟩, fun i asleep => .inr (.inr ⟨?_, ?_⟩)⟩
      · simp [aboutToSignal, next, Op.next]
      · by_contra up
        rw [cond] at asleep
        simp only [Bool.not_eq_false] at up
        exact w.nobodyAsleep up i asleep
  · by_cases signals : op = .signalPauseCond
    · subst signals
      have woken : t.kvm.pauseCond.NobodyAsleep := by
        have alone := one (by simp [aboutToSignal, at_])
        rcases effect.pauseCond with ⟨nobody, unchanged⟩ | ⟨i, wakes⟩
        · rw [unchanged]
          exact nobody
        · exact CondVar.nobodyAsleep_of_wake alone wakes
      exact ⟨fun up => by rw [same, handles]; exact w.quiet up,
        fun i asleep => absurd asleep (woken i)⟩
    · have cond : t.kvm.pauseCond = s.kvm.pauseCond := by
        have := effect.pauseCond
        cases op <;> simp_all
      refine ⟨fun up => by rw [same, handles]; exact w.quiet up, fun i asleep => ?_⟩
      rw [cond] at asleep
      rw [same, handles]
      exact (w.sleeper (aboutToSignal_eq_false at_ signals) asleep).imp_right .inl

theorem released_append (past : List Label) (l : Option Label) :
    released (past ++ l.toList) = match l with
      | some (.began .pause) => false
      | some (.returned .resume _) | some (.returned .shutdown _) => true
      | _ => released past := by
  cases l with
  | none => simp
  | some l =>
    simp only [released, Option.toList_some, List.foldl_append, List.foldl_cons, List.foldl_nil]
    grind

/-- A function has returned: what it leaves to be signalled has been. -/
theorem watched_finish {past : List Label} {s : State n} {task : Task} {ret : MiniKVMError}
    (progress : Progress s) (w : Watched past s) (at_ : s.main = .exec task ret []) :
    Watched (past ++ (label s .main).toList) (finish s ret task) := by
  have silent : aboutToSignal s = false := by simp [aboutToSignal, at_]
  have raised (busy : s.handles .pause = true) : s.kvm.paused ≠ 0 := by
    obtain ⟨cmd, rfl, kind⟩ := command_of_handles at_ busy
    exact progress.raised kind ⟨ret, at_⟩ (by simp)
  rw [label_finish at_]
  refine ⟨fun up => ⟨?_, handles_finish s ret task _⟩, fun i asleep => .inl ?_⟩
  · rw [finish_paused]
    rw [released_append] at up
    cases task with
    | startVm | signalBranch => exact (w.quiet up).1
    | command cmd =>
      by_cases kind : cmd.type.Releases
      · exact progress.lowered kind ⟨ret, at_⟩ (by simp)
      · refine (w.quiet ?_).1
        cases type : cmd.type <;> simp_all [Task.returned, CommandType.Releases]
  · rw [finish_paused]
    rw [finish_pauseCond] at asleep
    exact (w.sleeper silent asleep).elim id raised

theorem watched_side {past : List Label} {s t : State n} {e : Event n} {i : Fin n}
    (w : Watched past s) (heard : Heard past s e) (side : VcpuSide s i e t) : Watched past t := by
  have frame := side.frame
  have handles := handles_of_main frame.main .pause
  have signals : aboutToSignal t = aboutToSignal s := by simp only [aboutToSignal, frame.main]
  refine ⟨fun up => by rw [frame.paused, handles]; exact w.quiet up, fun j asleep => ?_⟩
  rw [frame.paused, handles, signals]
  by_cases other : j = i
  · subst other
    cases side with
    | thread moves =>
      cases moves with
      | waits at_ => exact heard at_
      | wakes at_ woken unowned => simp [CondVar.leave_waiter] at asleep
      | _ => exact w.asleep j asleep
    | _ => exact w.asleep j asleep
  · exact w.asleep j (frame.waiters j other ▸ asleep)

theorem watched_step {past : List Label} {s t : State n} {e : Event n} (sound : Sound s)
    (w : Watched past s) (heard : Heard past s e) (h : step s e = some t) :
    Watched (past ++ (label s e).toList) t := by
  cases trace_cases h with
  | op at_ effect next unlabelled event =>
    rw [unlabelled, Option.toList_none, List.append_nil]
    refine watched_op sound.text w (fun signals => ?_) at_ effect next
    rcases event with rfl | ⟨-, i, rfl⟩
    · exact heard signals
    · exact heard signals
  | finish at_ event result =>
    subst event result
    exact watched_finish sound.progress w at_
  | @recv cmd at_ event result =>
    subst event result
    have silent : aboutToSignal s = false := by simp [aboutToSignal, at_]
    have idle : s.handles .pause = false := by simp [State.handles, at_]
    refine ⟨fun up => ?_, fun i asleep => .inl ?_⟩
    · rw [released_append] at up
      have other : cmd.type ≠ .pause := fun kind => by simp [label, kind] at up
      refine ⟨(w.quiet ?_).1, by simpa [State.handles] using other⟩
      cases type : cmd.type <;> simp_all [label]
    · simpa [idle] using w.sleeper silent asleep
  | moves only unlabelled handles gives =>
    have kvm : t.kvm = s.kvm := by rw [only]
    have silent : aboutToSignal s = false := by
      unfold aboutToSignal
      split
      · next at_ => simpa [Op.guarded] using gives _ _ _ at_
      · rfl
    rw [unlabelled, Option.toList_none, List.append_nil]
    refine ⟨fun up => by rw [kvm, handles]; exact w.quiet up, fun i asleep => ?_⟩
    rw [kvm] at asleep ⊢
    rw [handles]
    exact (w.sleeper silent asleep).imp_right .inl
  | kills only unlabelled =>
    rw [unlabelled, Option.toList_none, List.append_nil, only]
    exact ⟨w.quiet, w.asleep⟩
  | vcpu side unlabelled =>
    rw [unlabelled, Option.toList_none, List.append_nil]
    exact watched_side w heard side

/-- Every step of the run is one that `Heard` allows. -/
def AllHeard (es : List (Event n)) : Prop := (system n).Steps Heard [] (init n) es

instance (es : List (Event n)) : Decidable (AllHeard es) :=
  inferInstanceAs (Decidable ((system n).Steps Heard [] (init n) es))

/-- In a run in which every signal finds at most one thread asleep and no thread goes to sleep on a
signal that has passed, RESUME and SHUTDOWN leave nobody asleep. -/
theorem resume_wakes_everyone (r : Run n) (heard : AllHeard r.events)
    (up : released ((system n).trace (init n) r.events) = true) :
    r.final.kvm.pauseCond.NobodyAsleep := by
  have both := (system n).invariant_run (fun past s => Sound s ∧ Watched past s)
    (fun past s e t before heard h =>
      ⟨sound_step before.1 h, watched_step before.1 before.2 heard h⟩)
    ⟨sound_init, watched_init⟩ heard r.reaches
  exact both.2.nobodyAsleep up

/-- One vcpu, which is asleep when RESUME signals. -/
def pauseResume : List (Event 1) :=
  [.main, .vcpu sole, .main, .main, .main, .accept true, .recv (some { type := .pause }), .main,
    .main, .main, .main, .main, .main, .reply, .vcpu sole, .vcpu sole, .vcpu sole, .vcpu sole,
    .recv (some { type := .resume }), .main, .main, .main, .main, .wake sole, .main, .main]

theorem resume_wakes_the_only_vcpu :
    (((system 1).run (init 1) pauseResume).get (by decide)).kvm.pauseCond.NobodyAsleep :=
  resume_wakes_everyone (.ofEvents pauseResume (by decide)) (by decide) (by decide)

/-- Two vcpus are asleep when RESUME signals, and one of them is woken. -/
def secondSleeper : List (Event 2) :=
  [.main, .main, .vcpu 0, .vcpu 1, .main, .main, .main, .accept true,
    .recv (some { type := .pause }), .main, .main, .main, .main, .main, .main, .main, .reply,
    .vcpu 0, .vcpu 0, .vcpu 0, .vcpu 0, .vcpu 1, .vcpu 1, .vcpu 1, .vcpu 1,
    .recv (some { type := .resume }), .main, .main, .main, .main, .main, .wake 0, .main, .main]

theorem resume_leaves_a_sleeper :
    ¬ ∀ (n : Nat) (r : Run n), released ((system n).trace (init n) r.events) = true →
      r.final.kvm.pauseCond.NobodyAsleep := by
  intro all
  exact all 2 (.ofEvents secondSleeper (by decide)) (by decide) 1 (by decide)

end MiniKvm.Guarantees.Wakeup
