import MiniKvm.Source.ServerInvariants

/-!
# When does the process end?

mini_kvm_clean_kvm joins every vcpu thread after run_main_loop, and stores nothing more that a thread
waits for. Whether the joins can return is settled by then, thread by thread: by where the thread is,
by `paused`, by the signals on their way to it and by who else is inside pthread_cond_wait. A thread
that cannot return stays so, whatever the others do; where every thread has a way out, some step takes
one of them nearer to its end and leaves the others theirs. A thread that is held up for good, as one
that has interrupted itself inside the logger, must have ended.
-/
namespace MiniKvm.Guarantees.Joining
open Source Source.Server Lib.Sync

variable {n : Nat}

/-- The events of the vcpus, but for the exits of a guest's own making. -/
def OfThreads : Event n → Prop
  | .vcpu _ | .deliver _ _ => True
  | _ => False

/-- The events of the threads that are not held up. -/
def OfOthers (held : Fin n → Prop) : Event n → Prop
  | .vcpu i | .deliver i _ => ¬ held i
  | _ => False

/-- By these events the vcpu threads can all return. -/
def CanEndBy (allowed : Event n → Prop) (s : State n) : Prop :=
  ∃ es t, (∀ e ∈ es, allowed e) ∧ (system n).run s es = some t ∧ ∀ i, t.vcpus i = .ended

def CanEnd (s : State n) : Prop := CanEndBy OfThreads s

/-- The threads that are held up have ended. -/
def Over (held : Fin n → Prop) (s : State n) : Prop := ∀ i, held i → s.vcpus i = .ended

/-! ## Threads that cannot return -/

variable {held : Fin n → Prop}

/-- The thread is asleep, or about to be. -/
def Doomed (s : State n) (i : Fin n) : Prop :=
  s.vcpus i = .callWait ∨ s.vcpus i = .waiting ∧ s.kvm.pauseCond.waiter i = some .asleep

/-- A thread is about to return from pthread_cond_wait, and `pause_lock` is owned, or another thread
is about to return from it too. Nobody gives the lock back. -/
structure Crowded (s : State n) : Prop where
  flag : s.kvm.paused = 0
  calls : ∀ i, s.vcpus i ≠ .callWait
  crowd : ∃ i, s.vcpus i = .waiting ∧
    (s.kvm.pauseLock.owner ≠ none ∨ ∃ j, j ≠ i ∧ s.vcpus j = .waiting)

theorem ofThreads_of_others {e : Event n} (of : OfOthers held e) : OfThreads e := by
  cases e <;> trivial

theorem canEnd_of_others {s : State n} (ends : CanEndBy (OfOthers held) s) : CanEnd s := by
  obtain ⟨es, t, of, reaches, ended⟩ := ends
  exact ⟨es, t, fun e member => ofThreads_of_others (of e member), reaches, ended⟩

theorem ofVcpus_of_threads {e : Event n} (of : OfThreads e) : ofVcpus e = true := by
  cases e <;> trivial

/-- A thread that is held up stays where it is. -/
theorem stays_of_held {s t : State n} {e : Event n} {i : Fin n} (is : held i)
    (of : OfOthers held e) (h : step s e = some t) : t.vcpus i = s.vcpus i := by
  obtain ⟨j, side⟩ | ⟨rfl, -⟩ := side_of_vcpus (ofVcpus_of_threads (ofThreads_of_others of)) h
  · refine side.frame.others i ?_
    rintro rfl
    cases side with
    | exit => exact of.elim
    | _ => exact of is
  · rfl

theorem over_of_canEnd {s : State n} (ends : CanEndBy (OfOthers held) s) : Over held s := by
  intro i is
  obtain ⟨es, t, of, reaches, ended⟩ := ends
  have same := (system n).invariant_allowed (fun u => u.vcpus i = s.vcpus i)
    (fun _ _ _ before of h => (stays_of_held is of h).trans before) rfl of reaches
  exact same.symm.trans (ended i)

theorem doomed_step {s t : State n} {e : Event n} {i : Fin n} (before : Doomed s i)
    (of : OfThreads e) (h : step s e = some t) : Doomed t i := by
  obtain ⟨j, side⟩ | ⟨rfl, -⟩ := side_of_vcpus (ofVcpus_of_threads of) h
  case inr => exact before
  by_cases other : i = j
  · subst other
    unfold Doomed at before ⊢
    cases side with
    | thread moves =>
      cases moves with
      | waits at_ => exact .inr ⟨by simp [State.goto_vcpus], by simp [CondVar.wait_waiter]⟩
      | _ => simp_all
    | consumed sent outside => exact before
    | _ => simp_all
  · have frame := side.frame
    unfold Doomed
    rw [frame.others i other, frame.waiters i other]
    exact before

/-- A thread that was not waiting changes nothing for those that are. -/
theorem crowded_elsewhere {s t : State n} {j : Fin n} (before : Crowded s)
    (flag : t.kvm.paused = s.kvm.paused) (lock : t.kvm.pauseLock = s.kvm.pauseLock)
    (others : ∀ k, k ≠ j → t.vcpus k = s.vcpus k) (was : s.vcpus j ≠ .waiting)
    (goes : t.vcpus j ≠ .callWait) : Crowded t := by
  have kept {k : Fin n} (waits : s.vcpus k = .waiting) : t.vcpus k = .waiting := by
    rw [others k (fun same => was (same ▸ waits))]
    exact waits
  obtain ⟨i, waits, rest⟩ := before.crowd
  refine ⟨flag.trans before.flag, fun k => ?_, i, kept waits, ?_⟩
  · by_cases same : k = j
    · exact same ▸ goes
    · rw [others k same]
      exact before.calls k
  · rw [lock]
    exact rest.imp_right fun ⟨k, other, waits⟩ => ⟨k, other, kept waits⟩

theorem crowded_step {s t : State n} {e : Event n} (before : Crowded s) (of : OfThreads e)
    (h : step s e = some t) : Crowded t := by
  obtain ⟨j, side⟩ | ⟨rfl, -⟩ := side_of_vcpus (ofVcpus_of_threads of) h
  case inr => exact ⟨before.flag, before.calls, before.crowd⟩
  have frame := side.frame
  cases side with
  | thread moves =>
    cases moves with
    | waits at_ => exact absurd at_ (before.calls j)
    | seesFlag at_ flag => exact absurd before.flag flag
    | wakes at_ woken unowned =>
      obtain ⟨i, waits, owned | ⟨k, other, waits'⟩⟩ := before.crowd
      · exact absurd unowned owned
      · refine ⟨before.flag, fun l => ?_, ?_⟩
        · by_cases same : l = j
          · simp [same, State.goto_vcpus]
          · simpa [State.goto_vcpus, same] using before.calls l
        · -- whoever of the two has not taken the lock is shut out
          by_cases same : i = j
          · exact ⟨k, by simp [State.goto_vcpus, same ▸ other, waits'], .inl (by simp)⟩
          · exact ⟨i, by simp [State.goto_vcpus, same, waits], .inl (by simp)⟩
    | _ =>
      exact crowded_elsewhere before rfl rfl frame.others (by simp_all) (by simp [State.goto_vcpus])
  | exit ret reason inside => exact of.elim
  | interrupts sent inside =>
    exact crowded_elsewhere before rfl rfl frame.others (by simp_all) (by simp [State.goto_vcpus])
  | consumed sent outside => exact ⟨before.flag, before.calls, before.crowd⟩

theorem not_canEnd_of_doomed {s : State n} {i : Fin n} (h : Doomed s i) : ¬ CanEnd s := by
  rintro ⟨es, t, of, reaches, ended⟩
  have doomed := (system n).invariant_allowed (fun s => Doomed s i)
    (fun s e t before of h => doomed_step before of h) h of reaches
  rcases doomed with calls | ⟨waits, -⟩
  · simp [ended i] at calls
  · simp [ended i] at waits

theorem not_canEnd_of_crowded {s : State n} (h : Crowded s) : ¬ CanEnd s := by
  rintro ⟨es, t, of, reaches, ended⟩
  have crowded := (system n).invariant_allowed Crowded
    (fun s e t before of h => crowded_step before of h) h of reaches
  obtain ⟨i, waits, -⟩ := crowded.crowd
  simp [ended i] at waits

/-- Between the test of MINI_KVM_PAUSED and the return of KVM_RUN. -/
def heading : VcpuPc → Bool
  | .testPaused | .enterRun | .inRun => true
  | _ => false

/-- A thread that stays where it is, or goes round. -/
def Trapped (s : State n) (i : Fin n) : Prop :=
  s.vcpus i = .unborn ∨
    heading (s.vcpus i) = true ∧ s.pending i = [] ∧ s.kvm.state = .shutdown ∨
      (s.vcpus i = .testFlag ∨ s.vcpus i = .callWait ∨ s.vcpus i = .waiting) ∧ s.kvm.paused ≠ 0

theorem trapped_step {s t : State n} {e : Event n} {i : Fin n} (before : Trapped s i)
    (of : OfThreads e) (h : step s e = some t) : Trapped t i := by
  obtain ⟨j, side⟩ | ⟨rfl, -⟩ := side_of_vcpus (ofVcpus_of_threads of) h
  case inr => exact before
  have frame := side.frame
  by_cases other : i = j
  · subst other
    unfold Trapped at before ⊢
    rw [frame.paused]
    cases side with
    | thread moves => cases moves <;> simp_all [State.goto_vcpus, heading]
    | exit ret reason inside => exact of.elim
    | interrupts sent inside => simp_all [heading]
    | consumed sent outside =>
      rcases before with isUnborn | ⟨-, none_, -⟩ | loops
      · exact .inl isUnborn
      · simp [none_] at sent
      · exact .inr (.inr loops)
  · unfold Trapped
    rw [frame.others i other, frame.signals i other, frame.paused]
    rcases before with isUnborn | ⟨heads, none_, down⟩ | loops
    · exact .inl isUnborn
    · exact .inr (.inl ⟨heads, none_, frame.state.elim (·.trans down) id⟩)
    · exact .inr (.inr loops)

theorem not_canEnd_of_trapped {s : State n} {i : Fin n} (h : Trapped s i) : ¬ CanEnd s := by
  rintro ⟨es, t, of, reaches, ended⟩
  have trapped := (system n).invariant_allowed (fun s => Trapped s i)
    (fun s e t before of h => trapped_step before of h) h of reaches
  simp [Trapped, ended i, heading] at trapped

/-- A process that has been killed ends no thread. -/
theorem not_canEnd_of_killed {s : State n} {i : Fin n} (dead : s.killed = true)
    (running : s.vcpus i ≠ .ended) : ¬ CanEnd s := by
  rintro ⟨es, t, -, reaches, ended⟩
  cases es with
  | nil =>
    cases reaches
    exact running (ended i)
  | cons e es =>
    obtain ⟨u, h, -⟩ := (system n).run_cons.mp reaches
    have alive := (step_eq_some.mp h).1
    simp [dead] at alive

/-! ## Threads with a way out -/

/-- The thread has a way to its end, once MINI_KVM_SHUTDOWN is stored. -/
def WayOut (s : State n) (i : Fin n) : Prop :=
  match s.vcpus i with
  | .setup | .testShutdown | .exited _ _ | .ended => True
  -- nothing but a signal brings it out of KVM_RUN
  | .testPaused | .enterRun | .inRun => s.pending i ≠ []
  | .testFlag => s.kvm.paused = 0
  | .waiting => s.kvm.paused = 0 ∧ s.kvm.pauseCond.waiter i = some .woken ∧
    s.kvm.pauseLock.owner = none ∧ ∀ j, s.vcpus j = .waiting → j = i
  | .unborn | .callWait => False

/-- Whoever can end has a way out. -/
theorem wayOut_of_canEnd {s : State n} (down : s.kvm.state = .shutdown)
    (waiting : ∀ i, s.kvm.pauseCond.waiter i ≠ none ↔ s.vcpus i = .waiting) (ends : CanEnd s)
    (i : Fin n) : WayOut s i := by
  have free : ¬ Trapped s i := fun trapped => not_canEnd_of_trapped trapped ends
  have calls (j : Fin n) : s.vcpus j ≠ .callWait := fun calls =>
    not_canEnd_of_doomed (.inl calls) ends
  unfold Trapped at free
  unfold WayOut
  cases at_ : s.vcpus i with
  | setup | testShutdown | exited ret reason | ended => trivial
  | unborn => simp [at_] at free
  | callWait => exact calls i at_
  | testPaused | enterRun | inRun => simpa [at_, heading, down] using free
  | testFlag => simpa [at_, heading] using free
  | waiting =>
    have flag : s.kvm.paused = 0 := by simpa [at_, heading] using free
    have inside := (waiting i).mpr at_
    have awake : s.kvm.pauseCond.waiter i ≠ some .asleep := fun asleep =>
      not_canEnd_of_doomed (.inr ⟨at_, asleep⟩) ends
    have roomy : ¬ (s.kvm.pauseLock.owner ≠ none ∨ ∃ j, j ≠ i ∧ s.vcpus j = .waiting) := fun crowd =>
      not_canEnd_of_crowded ⟨flag, calls, i, at_, crowd⟩ ends
    simp only [not_or, ne_eq, not_not, not_exists, not_and] at roomy
    refine ⟨flag, ?_, roomy.1, fun j waits => by_contra fun other => roomy.2 j other waits⟩
    cases waiter : s.kvm.pauseCond.waiter i with
    | none => exact absurd waiter inside
    | some wait => cases wait <;> simp_all

/-- Every thread has a way out, and those that are held up have taken it. -/
structure Clear (held : Fin n → Prop) (s : State n) : Prop where
  alive : s.killed = false
  down : s.kvm.state = .shutdown
  over_ : Over held s
  ways : ∀ i, WayOut s i

/-- A thread that goes on, but not into pthread_cond_wait, leaves the others theirs. -/
theorem wayOut_elsewhere {s t : State n} {j : Fin n} (way : WayOut s j)
    (paused : t.kvm.paused = s.kvm.paused)
    (same : t.vcpus j = s.vcpus j ∧ t.pending j = s.pending j)
    (waits : s.vcpus j = .waiting → t.kvm.pauseCond.waiter j = s.kvm.pauseCond.waiter j ∧
      t.kvm.pauseLock = s.kvm.pauseLock ∧ ∀ k, t.vcpus k = .waiting → s.vcpus k = .waiting) :
    WayOut t j := by
  unfold WayOut at way ⊢
  rw [same.1, same.2, paused]
  cases at_ : s.vcpus j with
  | waiting =>
    obtain ⟨waiter, lock, fewer⟩ := waits at_
    rw [at_] at way
    obtain ⟨flag, woken, unowned, only⟩ := way
    exact ⟨flag, waiter.trans woken, by rw [lock]; exact unowned, fun k there => only k (fewer k there)⟩
  | _ =>
    rw [at_] at way
    exact way

/-- A thread that has not ended goes on. -/
theorem clear_move {s t : State n} {i : Fin n} (clear : Clear held s) (running : s.vcpus i ≠ .ended)
    (alive : t.killed = false) (kvm : t.kvm = s.kvm)
    (others : ∀ j, j ≠ i → t.vcpus j = s.vcpus j ∧ t.pending j = s.pending j)
    (way : WayOut t i) (notWaiting : t.vcpus i ≠ .waiting) : Clear held t := by
  refine ⟨alive, kvm ▸ clear.down, fun j is => ?_, fun j => ?_⟩
  · have other : j ≠ i := fun same => running (same ▸ clear.over_ j is)
    rw [(others j other).1]
    exact clear.over_ j is
  · by_cases same : j = i
    · exact same ▸ way
    · refine wayOut_elsewhere (clear.ways j) (by rw [kvm]) (others j same) fun _ =>
        ⟨by rw [kvm], by rw [kvm], fun k there => ?_⟩
      by_cases moved : k = i
      · exact absurd (moved ▸ there) notWaiting
      · rwa [(others k moved).1] at there

/-- How far a thread is from its end. -/
def rank : VcpuPc → Nat
  | .testPaused => 5
  | .enterRun => 4
  | .inRun | .waiting => 3
  | .setup | .testFlag | .exited _ _ => 2
  | .testShutdown => 1
  | .unborn | .callWait | .ended => 0

def distance (s : State n) : Nat := ∑ i, rank (s.vcpus i)

theorem distance_lt {s t : State n} {i : Fin n} (others : ∀ j, j ≠ i → t.vcpus j = s.vcpus j)
    (less : rank (t.vcpus i) < rank (s.vcpus i)) : distance t < distance s := by
  refine Finset.sum_lt_sum (fun j _ => ?_) ⟨i, Finset.mem_univ i, less⟩
  by_cases same : j = i
  · exact same ▸ less.le
  · rw [others j same]

theorem distance_goto {s : State n} {i : Fin n} {pc : VcpuPc} (less : rank pc < rank (s.vcpus i)) :
    distance (s.goto i pc) < distance s :=
  distance_lt (i := i) (fun j other => by simp [State.goto_vcpus, other])
    (by simpa [State.goto_vcpus] using less)

/-- The thread that is woken takes `pause_lock`. -/
theorem woken_step {s : State n} {i : Fin n} (alive : s.killed = false) (waits : s.vcpus i = .waiting)
    (woken : s.kvm.pauseCond.waiter i = some .woken) (unowned : s.kvm.pauseLock.owner = none) :
    step s (.vcpu i) = some { s.goto i .testFlag with
      kvm := { s.kvm with
        pauseLock := ⟨some (.vcpu i)⟩
        pauseCond := s.kvm.pauseCond.leave i } } := by
  rw [step_of_alive alive]
  simp [live, kvmVcpuThreadRun, waits, woken, Mutex.lock, unowned]

/-- A signal brings a thread out of KVM_RUN. -/
theorem interrupt_step {s : State n} {i : Fin n} {sig : VMSignal} (alive : s.killed = false)
    (inside : s.vcpus i = .inRun) (sent : sig ∈ s.pending i) :
    step s (.deliver i sig) =
      some ({ s with pending := Function.update s.pending i ((s.pending i).erase sig) }.goto i
        (.exited (-1) .intr)) := by
  have installed : s.Installed := ⟨i, by simp [inside], by simp [inside]⟩
  rw [step_of_alive alive]
  simp [live, deliverStep, sent, installed, inside]

theorem exited_step {s : State n} {i : Fin n} {ret : UInt32} {reason : ExitReason}
    (alive : s.killed = false) (down : s.kvm.state = .shutdown)
    (at_ : s.vcpus i = .exited ret reason) :
    step s (.vcpu i) = some (s.goto i .testShutdown) := by
  have again : s.setState .shutdown = s := by
    rw [State.setState, ← down]
  have unsigned : ¬ ret < 0 := by simp [UInt32.lt_iff_toNat_lt]
  rw [step_of_alive alive]
  simp [live, kvmVcpuThreadRun, at_, again, unsigned]

theorem clear_progress {s : State n} (clear : Clear held s) (more : ¬ ∀ i, s.vcpus i = .ended) :
    ∃ e t, OfOthers held e ∧ step s e = some t ∧ Clear held t ∧ distance t < distance s := by
  obtain ⟨i, running⟩ := not_forall.mp more
  have free : ¬ held i := fun is => running (clear.over_ i is)
  have step_ := step_of_alive clear.alive (.vcpu i)
  have down := clear.down
  have way := clear.ways i
  have goes (pc : VcpuPc) (h : step s (.vcpu i) = some (s.goto i pc))
      (way : WayOut (s.goto i pc) i) (notWaiting : pc ≠ .waiting)
      (less : rank pc < rank (s.vcpus i)) :
      ∃ e t, OfOthers held e ∧ step s e = some t ∧ Clear held t ∧ distance t < distance s := by
    refine ⟨.vcpu i, _, free, h, clear_move clear running clear.alive rfl (fun j other => ?_) way ?_,
      distance_goto less⟩
    · simp [State.goto_vcpus, other]
    · simpa [State.goto_vcpus] using notWaiting
  unfold WayOut at way
  cases at_ : s.vcpus i with
  | ended => exact absurd at_ running
  | unborn | callWait => simp [at_] at way
  | setup =>
    exact goes .testShutdown (by simp [step_, live, kvmVcpuThreadRun, at_])
      (by simp [WayOut, State.goto_vcpus]) (by simp) (by simp [rank, at_])
  | testShutdown =>
    exact goes .ended (by simp [step_, live, kvmVcpuThreadRun, at_, down])
      (by simp [WayOut, State.goto_vcpus]) (by simp) (by simp [rank, at_])
  | testPaused =>
    rw [at_] at way
    exact goes .enterRun (by simp [step_, live, kvmVcpuThreadRun, at_, down])
      (by simpa [WayOut, State.goto_vcpus] using way) (by simp) (by simp [rank, at_])
  | enterRun =>
    rw [at_] at way
    exact goes .inRun (by simp [step_, live, kvmVcpuThreadRun, at_])
      (by simpa [WayOut, State.goto_vcpus] using way) (by simp) (by simp [rank, at_])
  | testFlag =>
    rw [at_] at way
    exact goes .testShutdown (by simp [step_, live, kvmVcpuThreadRun, at_, way])
      (by simp [WayOut, State.goto_vcpus]) (by simp) (by simp [rank, at_])
  | exited ret reason =>
    exact goes .testShutdown (exited_step clear.alive down at_) (by simp [WayOut, State.goto_vcpus])
      (by simp) (by simp [rank, at_])
  | waiting =>
    rw [at_] at way
    obtain ⟨flag, woken, unowned, only⟩ := way
    refine ⟨.vcpu i, _, free, woken_step clear.alive at_ woken unowned,
      ⟨clear.alive, down, fun j is => ?_, fun j => ?_⟩, ?_⟩
    · have other : j ≠ i := fun same => running (same ▸ clear.over_ j is)
      simpa [State.goto_vcpus, other] using clear.over_ j is
    · by_cases same : j = i
      · simpa [WayOut, same, State.goto_vcpus] using flag
      · -- nobody else is inside pthread_cond_wait
        exact wayOut_elsewhere (clear.ways j) rfl ⟨by simp [State.goto_vcpus, same], rfl⟩
          fun waits => absurd (only j waits) same
    · exact distance_lt (i := i) (fun j other => by simp [State.goto_vcpus, other])
        (by simp [State.goto_vcpus, at_, rank])
  | inRun =>
    rw [at_] at way
    obtain ⟨sig, rest, sent⟩ := List.exists_cons_of_ne_nil way
    refine ⟨.deliver i sig, _, free, interrupt_step clear.alive at_ (by simp [sent]),
      clear_move clear running clear.alive rfl (fun j other => ?_) ?_ ?_, ?_⟩
    · simp [State.goto_vcpus, other]
    · simp [WayOut, State.goto_vcpus]
    · simp [State.goto_vcpus]
    · exact distance_lt (i := i) (fun j other => by simp [State.goto_vcpus, other])
        (by simp [State.goto_vcpus, at_, rank])

theorem canEnd_of_clear {s : State n} (clear : Clear held s) : CanEndBy (OfOthers held) s := by
  obtain ⟨es, t, of, reaches, -, ended⟩ := (system n).exists_run_of_decreases distance
    (fun s before more => clear_progress before more) clear
  exact ⟨es, t, of, reaches, ended⟩

/-! ## Every run -/

/-- In every state of a server that is alive and has MINI_KVM_SHUTDOWN stored, and whichever threads
are held up for good: the vcpu threads can all be joined, without a KVM exit of the guest's own,
exactly when those have ended and each of the others has a way out. -/
theorem canEnd_iff (r : Run n) (held : Fin n → Prop) (alive : r.final.killed = false)
    (down : r.final.kvm.state = .shutdown) :
    CanEndBy (OfOthers held) r.final ↔
      Over held r.final ∧ ∀ i, WayOut r.final i :=
  ⟨fun ends => ⟨over_of_canEnd ends,
      wayOut_of_canEnd down (sound_run r.reaches).startup.waiting (canEnd_of_others ends)⟩,
    fun ⟨stuck, ways⟩ => canEnd_of_clear ⟨alive, down, stuck, ways⟩⟩

/-- SIGTERM comes before the first connection, with the vcpu inside KVM_RUN. -/
def stopped : List (Event 1) :=
  [.main, .main, .main, .vcpu sole, .vcpu sole, .vcpu sole, .vcpu sole, .main, .accept false,
    .sigTest true, .main, .main, .main, .main]

theorem stopped_canEnd :
    CanEndBy (OfOthers fun _ => False) (((system 1).run (init 1) stopped).get (by decide)) :=
  (canEnd_iff (.ofEvents stopped (by decide)) (fun _ => False) (by decide) (by decide)).mpr
    ⟨fun _ none_ => none_.elim, fun i => by
      rw [Subsingleton.elim i sole]
      exact List.cons_ne_nil VMSignal.shutdown []⟩

end MiniKvm.Guarantees.Joining
