import MiniKvm.Source.RunResources

/-!
# A run that reports success

mini_kvm_run has one `ret`. What init_filesystem returns is tested and not stored, and what
run_main_loop returns is not looked at, so a run that fails in either still returns what load_kernel has
returned.
-/
namespace MiniKvm.Guarantees.RunReportsFailure
open Lib.Resources Source Source.RunStages Source.SetupKvm RunArgs

/-- A VM with a name has a directory. -/
def namedStages : Option (List Char) → List Stage
  | none | some [] => []
  | some _ => [.initFilesystem]

/-- The stages of a run, as far as the options decide them. -/
def allStages (args : MiniKvmRunArgs) : List Stage :=
  [Stage.parseArgs, Stage.setupKvm] ++ List.replicate args.vcpu Stage.addVcpu ++
    [Stage.configurePaging, Stage.loadKernel] ++ namedStages args.name ++
      [Stage.createSocket, Stage.startVm]

/-- The stages, all of which have succeeded. -/
def succeeded (stages : List Stage) : List (Stage × Int32) :=
  stages.map fun stage => (stage, MiniKVMError.success.code)

/-- A run that returns MINI_KVM_SUCCESS has gone through all of its stages, and left the main loop
through MINI_KVM_SHUTDOWN. -/
def Reports (args : MiniKvmRunArgs) (r : Run) : Prop :=
  r.ending = .returned MiniKVMError.success.code →
    r.proc.stages = succeeded (allStages args) ∧ r.shutDown = true

/-- Where what comes after load_kernel fails, and mini_kvm_run returns all the same. -/
inductive Hidden (calls : RunCalls) (args : MiniKvmRunArgs) : Prop where
  | filesystem (bad : ¬ NamedFine calls.fs args.name)
  | mainLoop (named : NamedFine calls.fs args.name) (name : args.name ≠ some [])
    (bad : ¬ calls.socket.Fine ∨ calls.start ≠ .success)

theorem code_eq_success {e : MiniKVMError} : e.code = MiniKVMError.success.code ↔ e = .success := by
  constructor
  · intro same
    cases e with
    | success => rfl
    | _ => exact absurd same (by decide)
  · rintro rfl
    rfl

/-! ## The results of the stages -/

theorem succeeded_append (as bs : List Stage) :
    succeeded (as ++ bs) = succeeded as ++ succeeded bs := List.map_append

theorem did_stages (p : Proc) (stage : Stage) :
    (p.did stage .success).stages = p.stages ++ succeeded [stage] := rfl

theorem addVcpus_stages {calls : Nat → VcpuCalls} {count : Nat} {p q : Proc}
    (added : addVcpus calls count p = (.success, q)) :
    q.stages = p.stages ++ succeeded (List.replicate count .addVcpu) := by
  induction count generalizing p with
  | zero =>
    cases added
    exact (List.append_nil _).symm
  | succ count ih =>
    have here := (addVcpu_frame (calls p.kvm.vcpus.length) p).2
    rw [addVcpus] at added
    split at added
    · next p' made =>
      rw [made] at here
      have rest := ih added
      change p'.stages = p.stages at here
      rw [rest, did_stages, here, List.append_assoc, ← succeeded_append]
      rfl
    · next failed made =>
      cases added
      exact (failed rfl).elim

theorem initialise_stages {calls : RunCalls} {args : MiniKvmRunArgs} {p q : Proc}
    (done : initialise calls args p = (.success, q)) :
    q.stages = p.stages ++ succeeded ([Stage.setupKvm] ++
      List.replicate args.vcpu Stage.addVcpu ++ [Stage.configurePaging, Stage.loadKernel]) := by
  unfold initialise at done
  split at done
  · next p₁ setup =>
    have kept : p₁.stages = p.stages := congrArg (·.2.stages) setup.symm
    split at done
    · next p₂ added =>
      have vcpus := addVcpus_stages added
      split at done
      · next failed =>
        exact absurd (congrArg Prod.fst done) failed
      · next paging =>
        have load : calls.loadKernel = .success := congrArg Prod.fst done
        have paging : calls.configurePaging = .success := not_not.mp paging
        rw [load, paging] at done
        cases done
        rw [did_stages, did_stages, vcpus, did_stages, kept]
        simp only [List.append_assoc, succeeded_append]
        rfl
    · next failed added =>
      cases done
      exact (failed rfl).elim
  · next failed setup =>
    cases done
    exact (failed rfl).elim

theorem nameVm_stages {fs : FsCalls} {name : Option (List Char)} {p q : Proc}
    (named : nameVm fs name p = (.success, q)) :
    q.stages = p.stages ++ succeeded (namedStages name) := by
  match name with
  | none | some [] =>
    cases named
    exact (List.append_nil _).symm
  | some (c :: rest) =>
    have kept :=
      (initFilesystem_frame fs { p with kvm := { p.kvm with name := some (c :: rest) } }).2
    unfold nameVm at named
    dsimp only at named
    generalize initFilesystem fs { p with kvm := { p.kvm with name := some (c :: rest) } } = r
      at named kept
    obtain ⟨e, q'⟩ := r
    have success : e = .success := congrArg Prod.fst named
    rw [success] at named
    cases named
    rw [did_stages, kept]
    rfl

theorem runMainLoop_stages {socket : SocketCalls} {start : MiniKVMError} {first : VMState}
    {rounds : List Round} {p q : Proc}
    (left : runMainLoop socket start first rounds p = (.shutDown, q)) :
    q.stages = p.stages ++ succeeded [.createSocket, .startVm] := by
  have kept := (createSocket_frame socket p).2
  unfold runMainLoop at left
  split at left
  · next p' made =>
    rw [made] at kept
    split at left
    · cases left
    · next started =>
      have started : start = .success := not_not.mp started
      cases congrArg Prod.snd left
      rw [started]
      change p'.stages = p.stages at kept
      simp only [did_stages, kept, List.append_assoc, ← succeeded_append]
      rfl
  · cases left

/-- Through MINI_KVM_SHUTDOWN comes only what has gone through all the rest. -/
theorem serve_stages {calls : RunCalls} {args : MiniKvmRunArgs} {p : Proc}
    (down : (serve calls args p).shutDown = true) :
    (serve calls args p).proc.stages =
      p.stages ++ succeeded (namedStages args.name ++ [Stage.createSocket, Stage.startVm]) := by
  unfold serve at down ⊢
  split
  · next q named =>
    rw [named] at down
    have before := nameVm_stages named
    rw [succeeded_append, ← List.append_assoc, ← before]
    dsimp only at down
    split
    · next left =>
      rw [left] at down
      cases down
    · next how q' _ left =>
      rw [left] at down
      have through : how = .shutDown := by
        cases how with
        | serving => cases down
        | shutDown => rfl
        | failed e =>
          dsimp only at down
          split at down <;> cases down
      rw [through] at left
      have after := runMainLoop_stages left
      split <;> exact after
  · next e q failed named =>
    rw [named] at down
    cases e with
    | success => exact absurd rfl failed
    | _ => cases down

/-! ## The whole run -/

theorem reports_error {e : MiniKVMError} (error : e ≠ .success) (args : MiniKvmRunArgs) (q : Proc)
    (shutDown : Bool) : Reports args ⟨.returned e.code, q, shutDown⟩ := by
  intro returned
  exact absurd (code_eq_success.mp (Ending.returned.inj returned)) error

/-- What comes to load_kernel, and past it. -/
theorem reports_serve {calls : RunCalls} {args : MiniKvmRunArgs} {p : Proc}
    (stages : p.stages = succeeded ([Stage.parseArgs, Stage.setupKvm] ++
      List.replicate args.vcpu Stage.addVcpu ++ [Stage.configurePaging, Stage.loadKernel]))
    (ends : ServeCases calls args (serve calls args p)) :
    Reports args (serve calls args p) ↔ ¬ Hidden calls args := by
  have through := @serve_stages calls args p
  have only (hidden : Hidden calls args) (named : NamedFine calls.fs args.name)
      (name : args.name ≠ some []) : ¬ calls.socket.Fine ∨ calls.start ≠ .success := by
    cases hidden with
    | filesystem bad => exact absurd named bad
    | mainLoop _ _ bad => exact bad
  generalize serve calls args p = r at ends through ⊢
  cases ends with
  | noFilesystem bad q =>
    exact iff_of_false (fun reports => by cases (reports rfl).2) fun shown => shown (.filesystem bad)
  | noSocket named name bad q =>
    exact iff_of_false (fun reports => by cases (reports rfl).2) fun shown =>
      shown (.mainLoop named name (.inl bad))
  | noStart named name _ failed q =>
    exact iff_of_false (fun reports => by cases (reports rfl).2) fun shown =>
      shown (.mainLoop named name (.inr failed))
  | shutDown named name fine started _ q =>
    refine iff_of_true (fun _ => ⟨?_, rfl⟩) fun hidden => ?_
    · rw [through rfl, stages, ← succeeded_append, allStages]
      simp only [List.append_assoc]
    · exact (only hidden named name).elim (· fine) (· started)
  | serving named fine started =>
    refine iff_of_true (fun returned => by cases returned) fun hidden => ?_
    cases hidden with
    | filesystem bad => exact bad named
    | mainLoop _ _ bad => exact bad.elim (· fine) (· started)
  | crashed name =>
    refine iff_of_true (fun returned => by cases returned) fun hidden => ?_
    cases hidden with
    | filesystem bad => exact bad (by simp [NamedFine, name])
    | mainLoop _ other => exact other name

/-- Up to load_kernel a run reports what fails. What init_filesystem and the main loop report is
hidden. -/
theorem run_reports_iff (calls : RunCalls) (args : MiniKvmRunArgs) :
    Reports args (miniKvmRun calls args) ↔
      (calls.parse = 0 → calls.calloc = true → Initialises calls args → ¬ Hidden calls args) := by
  have ends := run_cases calls args
  generalize miniKvmRun calls args = r at ends
  cases ends with
  | unparsed failed =>
    exact iff_of_true (fun returned => absurd (Ending.returned.inj returned) failed)
      fun parsed => absurd parsed failed
  | noMemory _ failed =>
    refine iff_of_true (reports_error (by decide) _ _ _) fun _ calloc => ?_
    rw [failed] at calloc
    cases calloc
  | notInitialised _ _ e error q init =>
    refine iff_of_true (reports_error error _ _ _) fun _ _ initialises => ?_
    cases init with
    | noKvm failed => exact absurd failed (not_noKvm_of_passes initialises.passes)
    | noVm _ bad => exact absurd initialises.passes bad
    | noVcpu _ k stops => exact absurd (initialises.vcpus k stops.inside) stops.bad
    | notLoaded _ _ failed =>
      exact (failed.elim (· initialises.configurePaging) (· initialises.loadKernel)).elim
    | done => exact absurd rfl error
  | served parsed calloc initialises q init ends =>
    have stages := initialise_stages init
    rw [show (Proc.parsed calls).stages = [(.parseArgs, calls.parse)] from rfl, parsed] at stages
    refine (reports_serve stages ends).trans ?_
    exact ⟨fun shown _ _ _ => shown, fun shown => shown parsed calloc initialises⟩

/-- A host on which all works but socket. -/
def noSocket : RunCalls where
  parse := 0
  calloc := true
  intel := false
  setup := fun
    | .getApiVersion => Answer.of 12
    | _ => Answer.of 1
  vcpu := fun _ => ⟨true, Answer.of 0x1000, true, .success⟩
  configurePaging := .success
  loadKernel := .success
  fs := ⟨true, true, false, false, false, true⟩
  socket := ⟨false, true, true⟩
  start := .success
  first := .running
  rounds := []

def namedArgs : MiniKvmRunArgs := ⟨some ['v', 'm'], false, 1, 0x10000000, 1, some [0xf4]⟩

theorem noSocket_success :
    (miniKvmRun noSocket namedArgs).ending = .returned MiniKVMError.success.code ∧
      (.createSocket, MiniKVMError.failedSocketCreation.code) ∈
        (miniKvmRun noSocket namedArgs).proc.stages ∧
          ¬ Reports namedArgs (miniKvmRun noSocket namedArgs) := by
  have returned :
      (miniKvmRun noSocket namedArgs).ending = .returned MiniKVMError.success.code := by decide
  refine ⟨returned, by decide, fun reports => ?_⟩
  exact absurd (reports returned).2 (by decide)

end MiniKvm.Guarantees.RunReportsFailure
