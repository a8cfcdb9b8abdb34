import MiniKvm.Source.ServerInvariants

/-!
# A start that fails

mini_kvm_start_vm leaves its loop where pthread_create fails, and then stores MINI_KVM_RUNNING all the
same. The threads created so far enter KVM_RUN, while the main thread goes on to join them.
-/
namespace MiniKvm.Guarantees.FailedStart
open Source Source.Server

variable {n : Nat}

/-! ## Threads that are never created -/

/-- Vcpu `i` is still on the list of mini_kvm_start_vm. -/
def Listed (s : State n) (i : Fin n) : Prop :=
  ∃ rest, s.In .startVm rest ∧ .pthreadCreate i ∈ rest

/-- The threads are created in the order of the vcpus. -/
theorem created_in_order : (Task.startVm.ops : List (Op n)).Pairwise fun a b =>
    ∀ i j, a = .pthreadCreate i → b = .pthreadCreate j → i < j := by
  refine List.pairwise_append.mpr ⟨?_, List.pairwise_singleton _ _, ?_⟩
  · refine List.pairwise_map.mpr ((List.pairwise_lt_finRange n).imp ?_)
    rintro a b less i j ⟨⟩ ⟨⟩
    exact less
  · intro a _ b last i j _ isCreate
    rw [List.mem_singleton.mp last] at isCreate
    cases isCreate

theorem pthreadCreate_mem (i : Fin n) : .pthreadCreate i ∈ Task.startVm.ops :=
  List.mem_append_left _ (List.mem_map_of_mem (List.mem_finRange i))

/-- Behind the creation of vcpu `k` come those of the vcpus after it, and no others. -/
theorem mem_tail_iff {k i : Fin n} {rest : List (Op n)}
    (suffix : .pthreadCreate k :: rest <:+ Task.startVm.ops) :
    .pthreadCreate i ∈ rest ↔ k < i := by
  obtain ⟨front, split⟩ := suffix
  have order := created_in_order (n := n)
  rw [← split] at order
  obtain ⟨-, behind, before⟩ := List.pairwise_append.mp order
  constructor
  · intro member
    exact List.rel_of_pairwise_cons behind member k _ rfl rfl
  · intro less
    have member := pthreadCreate_mem i
    rw [← split] at member
    rcases List.mem_append.mp member with early | here
    · have wrong := before _ early _ List.mem_cons_self i k rfl rfl
      exact absurd less wrong.asymm
    · rcases List.mem_cons.mp here with same | later
      · cases same
        exact absurd less (lt_irrefl _)
      · exact later

theorem VcpuSide.keeps_unborn {s t : State n} {e : Event n} {i j : Fin n} (side : VcpuSide s j e t)
    (unborn : s.vcpus i = .unborn) : t.vcpus i = .unborn := by
  by_cases same : i = j
  · subst same
    cases side with
    | thread moves => cases moves <;> simp_all
    | exit ret reason inside => simp_all
    | interrupts sent inside => simp_all
    | consumed sent outside => exact unborn
  · rw [side.frame.others i same, unborn]

/-- Only its creation brings a thread to life. -/
theorem unborn_kept {s t : State n} {e : Event n} {i : Fin n} (text : InText s)
    (unborn : s.vcpus i = .unborn) (h : step s e = some t) :
    t.vcpus i = .unborn ∨ ∃ rest, s.In .startVm (.pthreadCreate i :: rest) ∧ t.In .startVm rest := by
  cases step_cases h with
  | @op _ task ret op rest _ at_ effect next event =>
    rw [effect.vcpus]
    cases op with
    | pthreadCreate j =>
      cases startVm_of_pthreadCreate (text.mem ⟨_, at_⟩)
      by_cases same : i = j
      · subst same
        exact .inr ⟨rest, ⟨ret, at_⟩, ret, next⟩
      · exact .inl (by simpa [Function.update_of_ne same] using unborn)
    | _ => exact .inl unborn
  | @finish task ret at_ => exact .inl (by rw [finish_vcpus, unborn])
  | vcpu side => exact .inl (VcpuSide.keeps_unborn side unborn)
  | _ => exact .inl unborn

theorem listed_back {s t : State n} {e : Event n} {i : Fin n} (h : step s e = some t)
    (listed : Listed t i) : Listed s i := by
  obtain ⟨rest, here, member⟩ := listed
  cases step_in h here with
  | stays same side => exact ⟨rest, same, member⟩
  | runs was effect flag paused => exact ⟨_, was, List.mem_cons_of_mem _ member⟩
  | skips was flag effect => cases member
  | refuses was query effect => cases member
  | gives was only => simp at member
  | begins was isCommand only => cases isCommand
  | catches was isBranch only => cases isBranch
  | halts same only => exact ⟨rest, same, member⟩

/-- A thread that is listed has not been created. -/
def ListedUnborn (s : State n) : Prop := ∀ i, Listed s i → s.vcpus i = .unborn

theorem listedUnborn_step {s t : State n} {e : Event n} (text : InText s) (before : ListedUnborn s)
    (h : step s e = some t) : ListedUnborn t := by
  intro i listed
  rcases unborn_kept text (before i (listed_back h listed)) h with unborn | ⟨rest, was, here⟩
  · exact unborn
  · obtain ⟨rest', ⟨ret', here'⟩, member⟩ := listed
    obtain ⟨ret, here⟩ := here
    rw [here] at here'
    cases here'
    exact absurd ((mem_tail_iff (text _ _ was)).mp member) (lt_irrefl i)

/-- A thread that is neither created nor listed never comes. -/
def NeverComes (i : Fin n) (s : State n) : Prop := s.vcpus i = .unborn ∧ ¬ Listed s i

theorem neverComes_step {s t : State n} {e : Event n} {i : Fin n} (text : InText s)
    (before : NeverComes i s) (h : step s e = some t) : NeverComes i t := by
  obtain ⟨unborn, unlisted⟩ := before
  refine ⟨?_, fun listed => unlisted (listed_back h listed)⟩
  rcases unborn_kept text unborn h with unborn | ⟨rest, was, -⟩
  · exact unborn
  · exact absurd ⟨_, was, List.mem_cons_self⟩ unlisted

/-! ## Runs in which a creation fails -/

/-- pthread_create fails on the thread of vcpu `k`. -/
def Fails (k : Fin n) (r : Run n) : Prop :=
  ∃ as bs s rest, r.events = as ++ .fails :: bs ∧ (system n).run (init n) as = some s ∧
    s.In .startVm (.pthreadCreate k :: rest)

/-- mini_kvm_start_vm returns in the state `s`. -/
def Returns (r : Run n) (s : State n) : Prop :=
  ∃ as bs, r.events = as ++ .main :: bs ∧ (system n).run (init n) as = some s ∧ s.In .startVm []

/-- The failed start leaves the VM stopped, and none of the threads created before is in KVM_RUN at
any time. -/
structure StaysStopped (k : Fin n) (r : Run n) : Prop where
  state : ∀ s, Returns r s → s.kvm.state ≠ .running
  outside : ∀ as bs s, r.events = as ++ bs → (system n).run (init n) as = some s →
    ∀ i, i < k → s.vcpus i ≠ .inRun

theorem listedUnborn_init : ListedUnborn (init n) := fun _ _ => rfl

theorem listedUnborn_run {es : List (Event n)} {s : State n}
    (reaches : (system n).run (init n) es = some s) : ListedUnborn s := by
  have preserved (s : State n) (e : Event n) (t : State n) (before : Sound s ∧ ListedUnborn s)
      (h : step s e = some t) : Sound t ∧ ListedUnborn t :=
    ⟨sound_step before.1 h, listedUnborn_step before.1.text before.2 h⟩
  exact ((system n).invariant_reachable preserved ⟨sound_init, listedUnborn_init⟩ reaches).2

theorem born_run {es : List (Event n)} {s t : State n} {i : Fin n}
    (reaches : (system n).run s es = some t) (unborn : t.vcpus i = .unborn) :
    s.vcpus i = .unborn := by
  by_contra born
  have preserved (s : State n) (e : Event n) (t : State n) (born : s.vcpus i ≠ .unborn)
      (h : step s e = some t) : t.vcpus i ≠ .unborn := fun unborn => born (unborn_back h unborn)
  exact (system n).invariant_reachable preserved born reaches unborn

theorem neverComes_run {es : List (Event n)} {s t : State n} {i : Fin n} (sound : Sound s)
    (before : NeverComes i s) (reaches : (system n).run s es = some t) : NeverComes i t := by
  have preserved (s : State n) (e : Event n) (t : State n) (before : Sound s ∧ NeverComes i s)
      (h : step s e = some t) : Sound t ∧ NeverComes i t :=
    ⟨sound_step before.1 h, neverComes_step before.1.text before.2 h⟩
  exact ((system n).invariant_reachable preserved ⟨sound, before⟩ reaches).2

/-- After the failure no thread is listed, and those that have not been created never come. -/
theorem neverComes_of_fails {s t : State n} {k i : Fin n} {rest : List (Op n)}
    (was : s.In .startVm (.pthreadCreate k :: rest)) (unborn : s.vcpus i = .unborn)
    (h : step s .fails = some t) : NeverComes i t := by
  obtain ⟨ret, at_⟩ := was
  obtain ⟨-, gives⟩ := step_eq_some.mp h
  simp only [live, failStep, at_, Option.some.injEq] at gives
  subst gives
  refine ⟨unborn, ?_⟩
  rintro ⟨rest', ⟨ret', here⟩, member⟩
  cases here
  simp at member

/-- The vcpus from the failing one on have no thread at any time. -/
theorem unborn_throughout {k : Fin n} {r : Run n} (fails : Fails k r) {as bs : List (Event n)}
    {s : State n} (split : r.events = as ++ bs) (reaches : (system n).run (init n) as = some s)
    {i : Fin n} (late : k ≤ i) : s.vcpus i = .unborn := by
  obtain ⟨cs, ds, u, rest, split', there, was⟩ := fails
  have sound := sound_run there
  have listed : Listed u i := by
    refine ⟨_, was, ?_⟩
    rcases eq_or_lt_of_le late with same | less
    · subst same
      exact List.mem_cons_self
    · exact List.mem_cons_of_mem _ ((mem_tail_iff (sound.text _ _ was)).mpr less)
  have unborn := listedUnborn_run there i listed
  rcases List.append_eq_append_iff.mp (split.symm.trans split') with
    ⟨more, rfl, -⟩ | ⟨more, rfl, rest'⟩
  · -- before the failure
    obtain ⟨v, hv, later⟩ := (system n).run_append.mp there
    cases reaches.symm.trans hv
    exact born_run later unborn
  · -- after it
    obtain ⟨v, hv, later⟩ := (system n).run_append.mp reaches
    cases there.symm.trans hv
    cases more with
    | nil =>
      cases later
      exact unborn
    | cons e more =>
      cases rest'
      obtain ⟨w, hw, last⟩ := (system n).run_cons.mp later
      change step u .fails = some w at hw
      exact (neverComes_run (sound_step sound hw) (neverComes_of_fails was unborn hw) last).1

/-! ## What the return finds -/

/-- No thread has come as far as KVM_RUN. -/
def Outside (s : State n) : Prop := ∀ i, (s.vcpus i).BeforeRun ∨ s.vcpus i = .enterRun

/-- What the last store of mini_kvm_start_vm leaves. -/
structure Opened (s : State n) : Prop where
  state : s.kvm.state = .running
  paused : s.kvm.paused = 0
  outside : Outside s

/-- Between that store and its return, mini_kvm_start_vm finds it so as long as no thread has been in
KVM_RUN. -/
def StillOpened (s : State n) : Prop := s.In .startVm [] → Opened s

theorem opened_side {s t : State n} {e : Event n} {i : Fin n} (before : Opened s)
    (side : VcpuSide s i e t) (notInside : ∀ j, t.vcpus j ≠ .inRun) : Opened t := by
  obtain ⟨running, paused, outside⟩ := before
  have here := outside i
  have moved (pc : VcpuPc) (early : pc.BeforeRun ∨ pc = .enterRun) : Opened (s.goto i pc) := by
    refine ⟨running, paused, fun j => ?_⟩
    rw [State.goto_vcpus]
    split
    · exact early
    · exact outside j
  cases side with
  | thread moves =>
    cases moves with
    | setup at_ => exact moved _ (.inl trivial)
    | ends at_ down =>
      rw [running] at down
      cases down
    | goesOn at_ up => exact moved _ (.inl trivial)
    | seesPaused at_ paused => exact moved _ (.inl trivial)
    | passes at_ unpaused => exact moved _ (.inr rfl)
    | seesFlag at_ flag => exact absurd paused flag
    | noFlag at_ flag => exact moved _ (.inl trivial)
    | enters at_ => exact absurd (by simp [State.goto_vcpus]) (notInside i)
    | waits at_ | wakes at_ | stops at_ | returns at_ => simp [at_, VcpuPc.BeforeRun] at here
  | exit ret reason inside => simp [inside, VcpuPc.BeforeRun] at here
  | interrupts sent inside => simp [inside, VcpuPc.BeforeRun] at here
  | consumed sent _ => exact ⟨running, paused, outside⟩

theorem stillOpened_step {s t : State n} {e : Event n} (sound : Sound s) (before : StillOpened s)
    (notInside : ∀ i, t.vcpus i ≠ .inRun) (h : step s e = some t) : StillOpened t := by
  intro here
  cases step_in h here with
  | stays same side => exact opened_side (before same) side notInside
  | @runs op _ was effect flag paused =>
    have barrier := sound.startup.closed _ was (by simp)
    rcases startVm_ops (sound.text _ _ was) with ⟨-, more⟩ | ⟨rfl, -⟩
    · exact absurd rfl more
    · refine ⟨effect.state, effect.paused.trans barrier.paused, fun i => .inl ?_⟩
      rw [effect.vcpus]
      exact barrier.before i
  | skips was flag effect =>
    rcases startVm_ops (sound.text _ _ was) with ⟨⟨i, other⟩, -⟩ | ⟨other, -⟩ <;> cases other
  | refuses was query effect =>
    rcases startVm_ops (sound.text _ _ was) with ⟨⟨i, rfl⟩, -⟩ | ⟨rfl, -⟩ <;> cases query
  | halts same only =>
    obtain ⟨running, paused, outside⟩ := before same
    rw [only]
    exact ⟨running, paused, outside⟩

theorem stillOpened_init : StillOpened (init n) := by
  rintro ⟨ret, here⟩
  simp [init, miniKvmStartVm] at here

/-- Where no thread has been in KVM_RUN, the return finds MINI_KVM_RUNNING. -/
theorem opened_of_outside {r : Run n} {s : State n} (returns : Returns r s)
    (outside : ∀ as bs s, r.events = as ++ bs → (system n).run (init n) as = some s →
      ∀ i, s.vcpus i ≠ .inRun) : Opened s := by
  obtain ⟨as, bs, split, reaches, here⟩ := returns
  have never : (system n).Throughout (fun s => ∀ i, s.vcpus i ≠ .inRun) (init n) as := by
    intro cs ds t split' reaches'
    exact outside cs (ds ++ .main :: bs) t (by rw [split, split', List.append_assoc]) reaches'
  obtain ⟨-, steps⟩ := ((system n).throughout_iff_steps [] reaches).mp never
  exact ((system n).invariant_run (fun _ s => Sound s ∧ StillOpened s)
    (fun _ _ _ _ before notInside h =>
      ⟨sound_step before.1 h, stillOpened_step before.1 before.2 (notInside _ h) h⟩)
    ⟨sound_init, stillOpened_init⟩ steps reaches).2 here

theorem not_staysStopped {k : Fin n} {r : Run n} {s : State n} (fails : Fails k r)
    (returns : Returns r s) : ¬ StaysStopped k r := by
  intro stopped
  refine stopped.state s returns (opened_of_outside returns ?_).state
  intro as bs t split reaches i
  by_cases early : i < k
  · exact stopped.outside as bs t split reaches i early
  · rw [unborn_throughout fails split reaches (not_lt.mp early)]
    simp

/-! ## A failing run for every vcpu -/

/-- The first `j` threads have been created, and none of them has been scheduled. -/
def created (j : Nat) : State n :=
  { init n with
    main := .exec .startVm .success (miniKvmStartVm.drop j)
    vcpus := fun i => if i.val < j then .setup else .unborn }

theorem drop_miniKvmStartVm {j : Nat} (inside : j < n) :
    (miniKvmStartVm : List (Op n)).drop j =
      .pthreadCreate ⟨j, inside⟩ :: miniKvmStartVm.drop (j + 1) := by
  have short : j < (miniKvmStartVm : List (Op n)).length := by
    simp [miniKvmStartVm]
    omega
  rw [List.drop_eq_getElem_cons short]
  simp [miniKvmStartVm, List.getElem_append_left, inside]

theorem step_created {j : Nat} (inside : j < n) :
    (system n).step (created j) .main = some (created (j + 1)) := by
  change step (created j) .main = _
  rw [step_of_alive rfl]
  simp only [live, mainStep, created, drop_miniKvmStartVm inside, Op.exec, Op.next,
    Option.map_some, State.goto]
  congr 2
  funext i
  rw [Function.update_apply]
  by_cases same : i = ⟨j, inside⟩
  · subst same
    simp
  · have other : i.val ≠ j := fun h => same (Fin.ext h)
    have iff : i.val < j + 1 ↔ i.val < j := by omega
    simp only [same, iff, if_false]

theorem run_created {j : Nat} (inside : j ≤ n) :
    (system n).run (init n) (List.replicate j .main) = some (created j) := by
  induction j with
  | zero => simp [created, init]
  | succ j ih =>
    rw [List.replicate_succ']
    exact (system n).run_append.mpr
      ⟨_, ih (by omega), (system n).run_cons.mpr ⟨_, step_created (by omega), rfl⟩⟩

/-- The creation of vcpu `k` fails, and mini_kvm_start_vm has made its last store. -/
def failed (k : Fin n) : State n :=
  { (created k.val).setState .running with main := .exec .startVm .failedRun [] }

theorem run_failed (k : Fin n) :
    (system n).run (created k.val) [.fails, .main] = some (failed k) := by
  have next := drop_miniKvmStartVm k.isLt
  simp [Lib.Lts.System.run, system, step, live, failStep, mainStep, created, next, Op.exec, Op.next,
    failed, State.setState, init]

/-- The main thread has returned, and the threads that exist go on. -/
theorem run_left (k : Fin n) {i : Fin n} (early : i < k) :
    (system n).run (failed k) [.main, .vcpu i, .vcpu i, .vcpu i, .vcpu i] =
      some ({ failed k with main := .left }.goto i .inRun) := by
  simp [Lib.Lts.System.run, system, step, live, mainStep, finish, failed, created, kvmVcpuThreadRun,
    State.goto, State.setState, early, init]

/-- The creation of vcpu `k` fails, and mini_kvm_start_vm makes its last store. -/
def failedEvents (k : Fin n) : List (Event n) :=
  List.replicate k.val .main ++ [.fails, .main]

theorem run_failedEvents (k : Fin n) :
    (system n).run (init n) (failedEvents k) = some (failed k) :=
  (system n).run_append.mpr ⟨_, run_created k.isLt.le, run_failed k⟩

theorem fails_of_events {k : Fin n} {more : List (Event n)} {r : Run n}
    (events : r.events = failedEvents k ++ more) : Fails k r := by
  refine ⟨_, .main :: more, _, miniKvmStartVm.drop (k.val + 1), ?_, run_created k.isLt.le,
    .success, ?_⟩
  · simp [events, failedEvents]
  · simp only [created, drop_miniKvmStartVm k.isLt]

theorem returns_of_events {k : Fin n} {more : List (Event n)} {r : Run n}
    (events : r.events = failedEvents k ++ .main :: more) : Returns r (failed k) :=
  ⟨_, more, events, run_failedEvents k, .failedRun, rfl⟩

/-- A failed start leaves MINI_KVM_RUNNING or a thread that has been in KVM_RUN, whichever creation
fails and whatever the schedule; every creation can fail, and every thread created before can then be
in KVM_RUN when the main thread joins it. -/
theorem failed_start_runs_on (n : Nat) (k : Fin n) :
    (∃ r s, Fails k r ∧ Returns r s) ∧
      (∀ r s, Fails k r → Returns r s → ¬ StaysStopped k r) ∧
      ∀ i < k, ∃ r : Run n, Fails k r ∧ r.final.main = .left ∧ r.final.vcpus i = .inRun := by
  refine ⟨?_, fun r s fails returns => not_staysStopped fails returns, fun i early => ?_⟩
  · have last : (system n).run (init n) (failedEvents k ++ [.main]) =
        some { failed k with main := .left } :=
      (system n).run_append.mpr ⟨_, run_failedEvents k, rfl⟩
    exact ⟨⟨_, _, last⟩, failed k, fails_of_events rfl, returns_of_events rfl⟩
  · have last := (system n).run_append.mpr ⟨_, run_failedEvents k, run_left k early⟩
    exact ⟨⟨_, _, last⟩, fails_of_events rfl, rfl, by simp [State.goto]⟩

def first : Fin 2 := ⟨0, Nat.two_pos⟩

/-- Two vcpus; the thread of the second cannot be created, and that of the first goes on. -/
def secondFails : Run 2 :=
  .ofEvents [.main, .fails, .main, .main, .vcpu first, .vcpu first, .vcpu first, .vcpu first] (by decide)

theorem second_fails_first_runs :
    Fails 1 secondFails ∧ secondFails.final.main = .left ∧
      secondFails.final.kvm.state = .running ∧ secondFails.final.vcpus 0 = .inRun ∧
        ¬ StaysStopped 1 secondFails := by
  refine ⟨fails_of_events rfl, by decide, by decide, by decide, fun stopped => ?_⟩
  exact stopped.outside _ [] _ (by simp) secondFails.reaches 0 (by decide) (by decide)

end MiniKvm.Guarantees.FailedStart
