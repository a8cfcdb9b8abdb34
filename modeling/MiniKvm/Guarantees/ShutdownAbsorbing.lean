import MiniKvm.Source.ServerInvariants

/-!
# Is MINI_KVM_SHUTDOWN final?

The vcpu threads, the SHUTDOWN handler and the signal branch store MINI_KVM_SHUTDOWN and every loop
of the server ends on it. The PAUSE and RESUME handlers store their own state without a look at the
old one; only the clients look, one message earlier.
-/
namespace MiniKvm.Guarantees.ShutdownAbsorbing
open Source Source.Server

variable {n : Nat}

def IsShutdown (s : State n) : Prop := s.kvm.state = .shutdown

instance (s : State n) : Decidable (IsShutdown s) := inferInstanceAs (Decidable (_ = _))

/-- The step is the store of `kvm->state` in the PAUSE or RESUME handler, on a VM that is shut
down. -/
def overwrites (s : State n) (e : Event n) : Bool :=
  match e, s.main with
  | .main, .exec (.command cmd) _ (.storeState _ :: _) =>
    s.kvm.state = .shutdown && (cmd.type = .pause || cmd.type = .resume)
  | _, _ => false

theorem overwrites_store {s t : State n} {e : Event n} (sound : Sound s)
    (h : step s e = some t) (bad : overwrites s e = true) :
    s.kvm.state = .shutdown ∧ t.kvm.state ≠ .shutdown := by
  unfold overwrites at bad
  split at bad
  · next cmd ret v rest at_ =>
    simp only [Bool.and_eq_true, Bool.or_eq_true, decide_eq_true_eq] at bad
    refine ⟨bad.1, ?_⟩
    have stored : t.kvm.state = v := by
      obtain ⟨-, moves⟩ := step_eq_some.mp h
      simp only [live, mainStep, at_, Op.exec, Option.map_some, Option.some.injEq] at moves
      rw [← moves]
      rfl
    have kind := at_storeState (sound.text _ _ ⟨_, at_⟩)
    grind
  · cases bad

/-- Every other step keeps MINI_KVM_SHUTDOWN. -/
theorem shutdown_kept {s t : State n} {e : Event n} (sound : Sound s) (h : step s e = some t)
    (good : overwrites s e = false) (down : IsShutdown s) : IsShutdown t := by
  unfold IsShutdown at *
  cases step_cases h with
  | @op _ task ret op rest _ at_ effect next event =>
    rcases effect.state_cases with ⟨v, rfl, stored⟩ | same
    · rcases at_storeState (sound.text _ _ ⟨_, at_⟩) with
        ⟨rfl, -, rfl⟩ | ⟨-, rfl, -⟩ | ⟨cmd, rfl, ⟨kind, -⟩ | ⟨kind, -⟩ | ⟨-, rfl, -⟩⟩
      · -- the barrier still holds, so the state is MINI_KVM_PAUSED
        have closed := (sound.startup.closed _ ⟨_, at_⟩ (by simp)).state
        simp [closed] at down
      · exact stored
      · simp_all [overwrites]
      · simp_all [overwrites]
      · exact stored
    · rw [same]
      exact down
  | @finish task ret at_ => cases task <;> exact down
  | vcpu side =>
    rcases side.frame.state with same | isDown
    · rw [same]
      exact down
    · exact isDown
  | _ => exact down

/-- MINI_KVM_SHUTDOWN is final in exactly the runs in which no PAUSE or RESUME handler makes its
store on a VM that is shut down. -/
theorem shutdown_absorbing_iff (r : Run n) :
    (system n).Absorbing IsShutdown (init n) r.events ↔
      (system n).Steps (fun _ s e => overwrites s e = false) [] (init n) r.events := by
  rw [(system n).absorbing_iff_steps r.reaches]
  refine (system n).steps_congr (fun _ s => Sound s) (fun _ _ _ _ sound _ _ h => sound_step sound h)
    ?_ sound_init ((system n).steps_of_forall (fun _ _ _ => trivial) _ _ _) r.reaches
  intro past s e t sound h
  constructor
  · intro keeps
    by_contra bad
    obtain ⟨down, up⟩ := overwrites_store sound h (by simpa using bad)
    exact up (keeps t h down)
  · intro good t' h' down
    exact shutdown_kept sound h' good down

/-- The guest halts after the reply to SHOW_STATE that says MINI_KVM_RUNNING. -/
def untilHalt : List (Event 1) :=
  [.main, .main, .main, .vcpu sole, .vcpu sole, .vcpu sole, .vcpu sole, .main, .accept true,
    .recv (some { type := .showState }), .main, .main, .main, .reply, .exit sole 0 .hlt, .vcpu sole]

/-- The client sends PAUSE on that reply. -/
def thenPause : List (Event 1) := [.recv (some { type := .pause }), .main, .main]

theorem shutdown_not_absorbing :
    ¬ ∀ (n : Nat) (r : Run n), (system n).Absorbing IsShutdown (init n) r.events := by
  intro absorbing
  have whole : ((system 1).run (init 1) (untilHalt ++ thenPause)).isSome = true := by decide
  refine (system 1).not_absorbing ?_ ?_ (absorbing 1 (.ofEvents (untilHalt ++ thenPause) whole))
  · decide
  · decide

end MiniKvm.Guarantees.ShutdownAbsorbing
