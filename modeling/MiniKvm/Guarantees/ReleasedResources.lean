import MiniKvm.Source.RunResources

/-!
# What a run leaves open

Clean-up releases what the fields of Kvm stand for. These are wrong in three places: `vm_fd` is 0 until
KVM_CREATE_VM, a vcpu that is not appended has no field, and `sock` is not looked at.
-/
namespace MiniKvm.Guarantees.ReleasedResources
open Lib.Resources Source Source.RunStages Source.SetupKvm RunArgs

/-- A run that returns has released what it acquired, once, and nothing else. -/
def Released (r : Run) : Prop := ∀ ret, r.ending = .returned ret → Balanced r.proc.table.history

/-- Where clean-up releases too much, or not enough. -/
inductive Spoiled (calls : RunCalls) (args : MiniKvmRunArgs) : Prop where
  /-- Standard input is closed. -/
  | stdin (parsed : calls.parse = 0) (calloc : calls.calloc = true) (failed : NoKvm calls.setup)
  /-- The first vcpu that cannot be added has a descriptor. -/
  | vcpu (parsed : calls.parse = 0) (calloc : calls.calloc = true)
    (passes : Passes calls.setup (.ofNat args.memSize)) (k : Nat)
    (stops : StopsAt calls.vcpu args.vcpu k) (made : (calls.vcpu k).createVcpu = true)
  /-- A run listens on its socket, and comes to its end. -/
  | socket (parsed : calls.parse = 0) (calloc : calls.calloc = true)
    (initialises : Initialises calls args) (named : NamedFine calls.fs args.name)
    (fine : calls.socket.Fine)
    (leaves : calls.start ≠ .success ∨ loopState calls.first calls.rounds = .shutdown)
    (name : args.name ≠ some [])

theorem Spoiled.started {calls : RunCalls} {args : MiniKvmRunArgs} (spoiled : Spoiled calls args) :
    calls.parse = 0 ∧ calls.calloc = true := by
  cases spoiled with
  | stdin parsed calloc => exact ⟨parsed, calloc⟩
  | vcpu parsed calloc => exact ⟨parsed, calloc⟩
  | socket parsed calloc => exact ⟨parsed, calloc⟩

theorem released_early (ret : Int32) (stages : List (Stage × Int32)) :
    Released ⟨.returned ret, { Proc.start with stages := stages }, false⟩ := by
  intro _ _
  exact (owns_start [Resource.fd 0, .fd 1, .fd 2]).balanced_iff.mpr rfl

theorem released_cleaned {q : Proc} {lost : List Resource} (holds : Holds q lost) (ret : Int32)
    (shutDown : Bool) : Released ⟨.returned ret, q.cleaned, shutDown⟩ ↔ lost = [] := by
  have balanced : Balanced q.cleaned.table.history ↔ lost = [] := (owns_clean holds).balanced_iff
  constructor
  · intro released
    exact balanced.mp (released ret rfl)
  · intro none _ _
    exact balanced.mpr none

theorem StopsAt.unique {calls : Nat → VcpuCalls} {count k l : Nat} (first : StopsAt calls count k)
    (other : StopsAt calls count l) : k = l := by
  rcases lt_trichotomy k l with less | same | more
  · exact absurd (other.before k less) first.bad
  · exact same
  · exact absurd (first.before l more) other.bad

/-- What comes to load_kernel, and past it. -/
theorem released_serve {calls : RunCalls} {args : MiniKvmRunArgs} (parsed : calls.parse = 0)
    (calloc : calls.calloc = true) (initialises : Initialises calls args) {r : Run}
    (ends : ServeCases calls args r) : Released r ↔ ¬ Spoiled calls args := by
  have only (spoiled : Spoiled calls args) : NamedFine calls.fs args.name ∧ calls.socket.Fine ∧
      (calls.start ≠ .success ∨ loopState calls.first calls.rounds = .shutdown) ∧
        args.name ≠ some [] := by
    cases spoiled with
    | stdin _ _ failed => exact absurd failed (not_noKvm_of_passes initialises.passes)
    | vcpu _ _ _ k stops => exact absurd (initialises.vcpus k stops.inside) stops.bad
    | socket _ _ _ named fine leaves name => exact ⟨named, fine, leaves, name⟩
  cases ends with
  | noFilesystem bad q holds =>
    exact iff_of_true ((released_cleaned holds _ _).mpr rfl) fun spoiled => bad (only spoiled).1
  | noSocket _ _ bad q holds =>
    exact iff_of_true ((released_cleaned holds _ _).mpr rfl) fun spoiled => bad (only spoiled).2.1
  | noStart named name fine failed q more some holds =>
    exact iff_of_false (fun released => some ((released_cleaned holds _ _).mp released)) fun clean =>
      clean (.socket parsed calloc initialises named fine (.inl failed) name)
  | shutDown named name fine _ down q more some holds =>
    exact iff_of_false (fun released => some ((released_cleaned holds _ _).mp released)) fun clean =>
      clean (.socket parsed calloc initialises named fine (.inr down) name)
  | serving _ _ started up q =>
    refine iff_of_true (fun ret returned => by cases returned) fun spoiled => ?_
    exact (only spoiled).2.2.1.elim (fun failed => failed started) up
  | crashed name q _ =>
    exact iff_of_true (fun ret returned => by cases returned) fun spoiled =>
      (only spoiled).2.2.2 name

/-- What fails before. -/
theorem released_init {calls : RunCalls} {args : MiniKvmRunArgs} (parsed : calls.parse = 0)
    (calloc : calls.calloc = true) {e : MiniKVMError} (error : e ≠ .success) {q : Proc}
    (init : InitCases calls args (e, q)) :
    Released ⟨.returned e.code, q.cleaned, false⟩ ↔ ¬ Spoiled calls args := by
  cases init with
  | noKvm failed _ _ _ broken =>
    exact iff_of_false (fun released => broken.not_balanced (released _ rfl)) fun clean =>
      clean (.stdin parsed calloc failed)
  | noVm kvm bad _ _ _ holds =>
    refine iff_of_true ((released_cleaned holds _ _).mpr rfl) fun spoiled => ?_
    cases spoiled with
    | stdin _ _ failed => exact kvm failed
    | vcpu _ _ passes => exact bad passes
    | socket _ _ initialises => exact bad initialises.passes
  | noVcpu passes k stops _ lost holds unmade =>
    refine (released_cleaned holds _ _).trans (unmade.trans ?_)
    constructor
    · intro unmade spoiled
      cases spoiled with
      | stdin _ _ failed => exact not_noKvm_of_passes passes failed
      | vcpu _ _ _ l other made =>
        rw [StopsAt.unique stops other, made] at unmade
        cases unmade
      | socket _ _ initialises => exact stops.bad (initialises.vcpus k stops.inside)
    · intro clean
      cases made : (calls.vcpu k).createVcpu with
      | false => rfl
      | true => exact absurd (.vcpu parsed calloc passes k stops made) clean
  | notLoaded passes vcpus failed _ _ _ holds =>
    refine iff_of_true ((released_cleaned holds _ _).mpr rfl) fun spoiled => ?_
    cases spoiled with
    | stdin _ _ failed => exact not_noKvm_of_passes passes failed
    | vcpu _ _ _ k stops => exact stops.bad (vcpus k stops.inside)
    | socket _ _ initialises =>
      exact failed.elim (· initialises.configurePaging) (· initialises.loadKernel)
  | done => exact absurd rfl error

/-- A run that returns has released what it acquired, once, and nothing else, unless the device fails
it, a vcpu fails behind KVM_CREATE_VCPU, or it has listened on its socket. -/
theorem run_released_iff (calls : RunCalls) (args : MiniKvmRunArgs) :
    Released (miniKvmRun calls args) ↔ ¬ Spoiled calls args := by
  have ends := run_cases calls args
  generalize miniKvmRun calls args = r at ends
  cases ends with
  | unparsed failed =>
    exact iff_of_true (released_early _ _) fun spoiled => failed spoiled.started.1
  | noMemory _ failed =>
    refine iff_of_true (released_early _ _) fun spoiled => ?_
    rw [spoiled.started.2] at failed
    cases failed
  | notInitialised parsed calloc e error q init => exact released_init parsed calloc error init
  | served parsed calloc initialises q _ ends => exact released_serve parsed calloc initialises ends

/-- A host on which nothing works. -/
def deadHost : RunCalls where
  parse := 0
  calloc := true
  intel := false
  setup := fun _ => Answer.failed
  vcpu := fun _ => ⟨false, Answer.failed, false, .failedVcpuCreation⟩
  configurePaging := .internalError
  loadKernel := .internalError
  fs := ⟨false, false, false, false, false, false⟩
  socket := ⟨false, false, false⟩
  start := .failedRun
  first := .paused
  rounds := []

def someArgs : MiniKvmRunArgs := ⟨none, false, 1, 0x10000000, 1, some [0xf4]⟩

/-- Where /dev/kvm cannot be opened, standard input is closed. -/
theorem deadHost_closes_stdin :
    (miniKvmRun deadHost someArgs).proc.table.history = [.released (.fd 0)] ∧
      ¬ Released (miniKvmRun deadHost someArgs) := by
  refine ⟨by decide, fun released => ?_⟩
  exact absurd (released MiniKVMError.noDevice.code (by decide)) (by decide)

end MiniKvm.Guarantees.ReleasedResources
