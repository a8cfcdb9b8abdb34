import MiniKvm.Source.ServerInvariants

/-!
# The start barrier

The threads of the first vcpus already run while mini_kvm_start_vm creates the others. Nothing
synchronises them but MINI_KVM_PAUSED with `paused` 0, under which they spin through the outer
loop of kvm_vcpu_thread_run.
-/
namespace MiniKvm.Guarantees.StartBarrier
open Source Source.Server

variable {n : Nat}

/-- The thread has passed the test of MINI_KVM_PAUSED: it is about to call KVM_RUN, inside it, or
back from it. -/
def runs : VcpuPc → Bool
  | .enterRun | .inRun | .exited _ _ => true
  | _ => false

/-- The main thread is about to store MINI_KVM_RUNNING, with every thread created and none of them
past the barrier. -/
structure AtStore (s : State n) : Prop where
  here : s.In .startVm [.storeState .running]
  created : ∀ i, s.vcpus i ≠ .unborn
  barrier : Barrier s

/-- No pthread_create of the run fails. -/
def CreatesAll (es : List (Event n)) : Prop :=
  (system n).Steps (fun _ s e => createFails s e = false) [] (init n) es

/-- The threads missing so far are the ones still to be created. -/
def Born (s : State n) : Prop := ∀ i, s.vcpus i = .unborn → Awaits s i

theorem born_init : Born (init n) := fun _ _ => ⟨_, rfl, by simp [miniKvmStartVm]⟩

theorem born_step {s t : State n} {e : Event n} (sound : Sound s) (before : Born s)
    (creates : createFails s e = false) (h : step s e = some t) : Born t := by
  intro i isUnborn
  rcases awaits_step sound.text (before i (unborn_back h isUnborn)) h isUnborn with
    awaits | ⟨fails, -⟩
  · exact awaits
  · simp [creates] at fails

/-- mini_kvm_start_vm has made its last access. -/
def Open (s : State n) : Prop := ∀ rest, s.In .startVm rest → rest = []

theorem not_open {s : State n} (h : ¬ Open s) :
    ∃ ret op rest, s.main = .exec .startVm ret (op :: rest) := by
  simp only [Open, not_forall] at h
  obtain ⟨rest, ⟨ret, here⟩, more⟩ := h
  obtain ⟨op, rest, rfl⟩ := List.exists_cons_of_ne_nil more
  exact ⟨ret, op, rest, here⟩

/-- The only step that opens the barrier is the store of MINI_KVM_RUNNING. -/
theorem opens {s t : State n} {e : Event n} (sound : Sound s) (closed : ¬ Open s) (opened : Open t)
    (h : step s e = some t) : e = .main ∧ s.In .startVm [.storeState .running] := by
  obtain ⟨ret, op, rest, starting⟩ := not_open closed
  have kind := startVm_ops (sound.text _ _ ⟨_, starting⟩)
  cases step_cases h with
  | op at_ effect next event =>
    rw [at_] at starting
    cases starting
    rcases kind with ⟨⟨j, rfl⟩, more⟩ | ⟨rfl, rfl⟩
    · exact absurd (opened rest ⟨ret, next⟩) more
    · exact ⟨by simpa using event, ret, at_⟩
  | createFails at_ =>
    rw [at_] at starting
    cases starting
    simpa using opened _ ⟨_, rfl⟩
  | queryFails at_ query =>
    rw [at_] at starting
    cases starting
    rcases kind with ⟨⟨j, rfl⟩, -⟩ | ⟨rfl, -⟩ <;> simp [Op.guarded] at query
  | kills => exact absurd (opened _ ⟨ret, starting⟩) (by simp)
  | vcpu side => exact absurd (opened _ ⟨ret, side.frame.main ▸ starting⟩) (by simp)
  | finish at_ | leave at_ | loop at_ | accept _ at_ | recv _ at_ | recvEnd at_ | reply at_
  | caught at_ | uncaught at_ =>
    rw [at_] at starting
    cases starting

theorem atStore_of_born {s : State n} (sound : Sound s) (born : Born s)
    (here : s.In .startVm [.storeState .running]) : AtStore s := by
  refine ⟨here, fun i isUnborn => ?_, sound.startup.closed _ here (by simp)⟩
  obtain ⟨rest, starting, stillToCome⟩ := born i isUnborn
  obtain ⟨ret, here⟩ := here
  rw [here] at starting
  cases starting
  simp at stillToCome

theorem born_run {es : List (Event n)} {s : State n} (creates : CreatesAll es)
    (reaches : (system n).run (init n) es = some s) : Sound s ∧ Born s :=
  (system n).invariant_run (fun _ s => Sound s ∧ Born s)
    (fun _ _ _ _ before creates h => ⟨sound_step before.1 h, born_step before.1 before.2 creates h⟩)
    ⟨sound_init, born_init⟩ creates reaches

/-- No vcpu thread executes KVM_RUN before the last thread has been created and MINI_KVM_RUNNING has
been stored, and that store finds MINI_KVM_PAUSED. -/
theorem start_barrier (r : Run n) (creates : CreatesAll r.events) :
    (∀ i, runs (r.final.vcpus i) = true → ∃ as bs s, r.events = as ++ .main :: bs ∧
      (system n).run (init n) as = some s ∧ AtStore s) ∧
    (r.final.In .startVm [.storeState .running] → r.final.kvm.state = .paused) := by
  have sound := sound_run r.reaches
  refine ⟨fun i running => ?_, fun here => (sound.startup.closed _ here (by simp)).state⟩
  have opened : Open r.final := by
    intro rest here
    by_contra more
    have early := (sound.startup.closed _ here more).before i
    cases at_ : r.final.vcpus i <;> simp_all [runs, VcpuPc.BeforeRun]
  have closed : ¬ Open (init n) := fun h => by simpa [miniKvmStartVm] using h _ ⟨_, rfl⟩
  obtain ⟨as, e, bs, s, t, split, hs, ht, -, before, after⟩ :=
    (system n).exists_crossing closed opened r.reaches
  obtain ⟨soundS, bornS⟩ := born_run ((system n).steps_left (split ▸ creates)) hs
  obtain ⟨rfl, here⟩ := opens soundS before after ht
  exact ⟨as, bs, s, split, hs, atStore_of_born soundS bornS here⟩

/-- One vcpu, which spins once before the store and then enters KVM_RUN. -/
def bootEvents : List (Event 1) :=
  [.main, .vcpu sole, .vcpu sole, .vcpu sole, .vcpu sole, .main, .main, .vcpu sole, .vcpu sole,
    .vcpu sole]

theorem start_barrier_boot :
    ∃ as bs s, bootEvents = as ++ .main :: bs ∧ (system 1).run (init 1) as = some s ∧ AtStore s :=
  (start_barrier (.ofEvents bootEvents (by decide)) (by unfold CreatesAll; decide)).1 0 (by decide)

end MiniKvm.Guarantees.StartBarrier
