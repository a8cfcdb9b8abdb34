import MiniKvm.Source.LoggerThreads

/-!
# Can the logger block for good?

The handler of SIGVMPAUSE and SIGVMRESUME logs, and `state.lock` is a default mutex. A handler that
runs on the stack of the thread that owns the lock waits for its own thread.
-/
namespace MiniKvm.Guarantees.LogWedge
open Source Source.Logger Source.LoggerThreads Lib.Sync
open Source.VcpuThread (LoggerLevel)
open Source.Server (Tid)

variable {n : Nat}

/-- Nothing is printed any more and nobody gets the lock, whatever happens. -/
def Stuck (s : State n) : Prop :=
  ∀ es u, (system n).run s es = some u → u.lock.owner ≠ none ∧ u.out = s.out

/-- Some schedule of the threads gives the lock back. -/
def Releasable (s : State n) : Prop :=
  ∃ es u, (system n).run s es = some u ∧ u.lock.owner = none

/-- The event is a signal whose handler logs, and it reaches the owner of the lock. -/
def Interrupts (s : State n) : Event n → Prop
  | .signal i sig => (vcpuSignalHandler sig).isSome ∧ s.lock.owner = some (.vcpu i)
  | _ => False

/-- The owner of the lock has another call on top of the one that is inside. -/
def Wedged (s : State n) : Prop :=
  ∃ t front f outer, s.lock.owner = some t ∧ Holds (s.frames t) front f outer ∧ front ≠ []

/-- The owner of the lock can go on. -/
def Clear (s : State n) : Prop :=
  ∀ t, s.lock.owner = some t → ∃ f outer, s.frames t = f :: outer ∧ f.place.inside = true

/-! ## Once and for all -/

theorem wedged_step {s u : State n} {e : Event n} (guarded : Guarded s) (wedged : Wedged s)
    (moves : step s e = some u) : Wedged u ∧ u.out = s.out := by
  obtain ⟨t, front, f, outer, owns, holds, more⟩ := wedged
  -- the call of another thread changes nothing here
  have elsewhere {v : Tid n} (frames : List Frame) (apart : v ≠ t) : Wedged (s.put v frames) :=
    ⟨t, front, f, outer, owns, by simpa [State.put_frames, Ne.symm apart] using holds, more⟩
  -- and the owner's own calls are all waiting for the lock
  have blocked {v : Tid n} {g : Frame} {rest : List Frame} (at_ : s.frames v = g :: rest)
      (inside : g.place.inside = true) : False := by
    obtain ⟨owns', -⟩ := guarded.top at_ inside
    cases owns.symm.trans owns'
    exact more (holds.front_nil at_ inside)
  cases step_cases moves with
  | @call v task idle =>
    refine ⟨elsewhere _ fun same => ?_, rfl⟩
    rw [← same, idle] at holds
    exact absurd holds.split (by simp)
  | quiet silent => exact ⟨⟨t, front, f, outer, owns, holds, more⟩, rfl⟩
  | @signal i sig c logs unblocked =>
    refine ⟨?_, rfl⟩
    by_cases same : .vcpu i = t
    · subst same
      refine ⟨.vcpu i, ⟨some sig, .lock (.log c)⟩ :: front, f, outer, owns, ?_, by simp⟩
      refine ⟨?_, holds.inside, holds.front.cons rfl, holds.outer⟩
      simp [State.put_frames, holds.split]
    · exact elsewhere _ same
  | acquire at_ free => simp [free] at owns
  | release at_ => exact (blocked at_ rfl).elim
  | advance at_ goes => exact (blocked at_ (Place.advance_inside goes).1).elim

theorem stuck_of_wedged {s : State n} (guarded : Guarded s) (wedged : Wedged s) : Stuck s := by
  intro es u reaches
  have kept : Guarded u ∧ Wedged u ∧ u.out = s.out :=
    (system n).invariant_reachable
      (fun v e w (before : Guarded v ∧ Wedged v ∧ v.out = s.out) moves => by
        obtain ⟨guarded, wedged, out⟩ := before
        obtain ⟨wedged', same⟩ := wedged_step guarded wedged moves
        exact ⟨guarded_step guarded moves, wedged', same.trans out⟩)
      ⟨guarded, wedged, rfl⟩ reaches
  obtain ⟨-, ⟨t, -, -, -, owns, -⟩, out⟩ := kept
  exact ⟨by simp [owns], out⟩

/-! ## Until then -/

theorem clear_step {s u : State n} {e : Event n} (clear : Clear s) (quiet : ¬ Interrupts s e)
    (moves : step s e = some u) : Clear u := by
  intro t owns
  cases step_cases moves with
  | @call v task idle =>
    obtain ⟨f, outer, at_, inside⟩ := clear t owns
    have apart : t ≠ v := fun same => by simp [same, idle] at at_
    exact ⟨f, outer, by simp [State.put_frames, apart, at_], inside⟩
  | quiet silent => exact clear t owns
  | @signal i sig c logs unblocked =>
    obtain ⟨f, outer, at_, inside⟩ := clear t owns
    have apart : t ≠ .vcpu i := fun same => quiet ⟨by simp [logs], same ▸ owns⟩
    exact ⟨f, outer, by simp [State.put_frames, apart, at_], inside⟩
  | @acquire v tm h task outer at_ free =>
    cases owns
    exact ⟨⟨h, .test task⟩, outer, by simp [State.put_frames], rfl⟩
  | release at_ => cases owns
  | @advance v tm h place next text level outer at_ goes =>
    obtain ⟨f, outer', top, inside⟩ := clear t owns
    by_cases same : t = v
    · subst same
      exact ⟨⟨h, next⟩, outer, by simp [State.put_frames], (Place.advance_inside goes).2⟩
    · exact ⟨f, outer', by simp [State.put_frames, same, top], inside⟩

/-- The accesses that a call has still to make under the lock. -/
def left : Place → Nat
  | .test _ => 5
  | .metadata _ => 4
  | .message _ => 3
  | .newline _ => 2
  | .unlock => 1
  | .lock _ => 0

def measure (s : State n) : Nat :=
  match s.lock.owner with
  | none => 0
  | some t => ((s.frames t).head?.map fun f => left f.place).getD 0

theorem advance_of_inside {s : State n} {place : Place} (inside : place.inside = true)
    (more : place ≠ .unlock) : ∃ next text level,
      place.advance s midnight = some (next, text, level) ∧ left next < left place := by
  cases place with
  | lock task => cases inside
  | test task =>
    cases task with
    | log c =>
      refine ⟨_, _, _, rfl, ?_⟩
      split <;> simp [left]
    | setLevel level => exact ⟨_, _, _, rfl, by simp [left]⟩
  | metadata c => exact ⟨_, _, _, rfl, by simp [left]⟩
  | message c => exact ⟨_, _, _, rfl, by simp [left]⟩
  | newline c => exact ⟨_, _, _, rfl, by simp [left]⟩
  | unlock => exact absurd rfl more

/-- The owner of the lock gets to its unlock by its own steps. -/
theorem releasable_of_clear {s : State n} (guarded : Guarded s) (clear : Clear s) :
    Releasable s := by
  have released : ∃ es u, (∀ e ∈ es, ∀ s, ¬ Interrupts s e) ∧ (system n).run s es = some u ∧
      (Guarded u ∧ Clear u) ∧ u.lock.owner = none :=
    (system n).exists_run_of_decreases measure (fun s inv more => by
      obtain ⟨guarded, clear⟩ := inv
      obtain ⟨t, owns⟩ := Option.ne_none_iff_exists'.mp more
      obtain ⟨⟨h, place⟩, outer, at_, inside⟩ := clear t owns
      have quiet : ∀ s, ¬ Interrupts s (.go t midnight) := fun _ => id
      by_cases last : place = .unlock
      · subst last
        have moves : step s (.go t midnight) =
            some { s.put t outer with lock := s.lock.unlock } := by
          simp [step, goStep, at_]
        refine ⟨_, _, quiet, moves, ⟨guarded_step guarded moves, clear_step clear (quiet s) moves⟩, ?_⟩
        simp [measure, owns, at_, left]
      · obtain ⟨next, text, level, goes, less⟩ := advance_of_inside (s := s) inside last
        have moves := step_advance at_ goes
        refine ⟨_, _, quiet, moves, ⟨guarded_step guarded moves, clear_step clear (quiet s) moves⟩, ?_⟩
        simpa [measure, owns, at_, State.put_frames] using less)
      ⟨guarded, clear⟩
  obtain ⟨es, u, -, reaches, -, free⟩ := released
  exact ⟨es, u, reaches, free⟩

/-- A signal whose handler logs puts a call on top of the one that is inside. -/
theorem wedged_of_interrupts {s u : State n} {e : Event n} (guarded : Guarded s)
    (interrupts : Interrupts s e) (moves : step s e = some u) : Wedged u := by
  cases step_cases moves with
  | @quiet i sig silent => simp [Interrupts, silent] at interrupts
  | @signal i sig c logs unblocked =>
    obtain ⟨front, f, outer, holds⟩ := guarded.owner _ interrupts.2
    refine ⟨.vcpu i, ⟨some sig, .lock (.log c)⟩ :: front, f, outer, interrupts.2, ?_, by simp⟩
    refine ⟨?_, holds.inside, holds.front.cons rfl, holds.outer⟩
    simp [State.put_frames, holds.split]
  | call | acquire | release | advance => exact interrupts.elim

/-- A run leads to a wedged logger exactly when one of its signals interrupts the owner. -/
theorem wedged_or_clear {s u : State n} {es : List (Event n)} (past : List (Label n))
    (guarded : Guarded s) (clear : Clear s) (reaches : (system n).run s es = some u) :
    Guarded u ∧ ((system n).Steps (fun _ s e => ¬ Interrupts s e) past s es ∧ Clear u ∨
      ¬ (system n).Steps (fun _ s e => ¬ Interrupts s e) past s es ∧ Wedged u) := by
  induction es generalizing past s with
  | nil =>
    cases reaches
    exact ⟨guarded, .inl ⟨trivial, clear⟩⟩
  | cons e es ih =>
    obtain ⟨t, moves, rest⟩ := (system n).run_cons.mp reaches
    have guarded' := guarded_step guarded moves
    rw [(system n).steps_cons moves]
    by_cases interrupts : Interrupts s e
    · -- from here on the logger is wedged
      have kept : Guarded u ∧ Wedged u :=
        (system n).invariant_reachable
          (fun v e w (before : Guarded v ∧ Wedged v) moves =>
            ⟨guarded_step before.1 moves, (wedged_step before.1 before.2 moves).1⟩)
          ⟨guarded', wedged_of_interrupts guarded interrupts moves⟩ rest
      exact ⟨kept.1, .inr ⟨fun both => both.1 interrupts, kept.2⟩⟩
    · obtain ⟨final, outcome⟩ := ih _ guarded' (clear_step clear interrupts moves) rest
      refine ⟨final, outcome.imp ?_ ?_⟩
      · exact fun both => ⟨⟨interrupts, both.1⟩, both.2⟩
      · exact fun both => ⟨fun steps => both.1 steps.2, both.2⟩

/-- The logger is stuck for good exactly in the runs in which SIGVMPAUSE or SIGVMRESUME has reached
the thread that owned `state.lock`; in every other run the lock can be given back. -/
theorem log_stuck_iff (initial : LoggerLevel) (enableColor : Bool) (out : List Char)
    (r : (system n).Run (init n initial enableColor out)) :
    (Stuck r.final ↔ ¬ (system n).Steps (fun _ s e => ¬ Interrupts s e) []
      (init n initial enableColor out) r.events) ∧
    (Releasable r.final ↔ (system n).Steps (fun _ s e => ¬ Interrupts s e) []
      (init n initial enableColor out) r.events) := by
  have never (stuck : Stuck r.final) : ¬ Releasable r.final :=
    fun ⟨es, u, reaches, free⟩ => (stuck es u reaches).1 free
  obtain ⟨guarded, ⟨steps, clear⟩ | ⟨interrupted, wedged⟩⟩ := wedged_or_clear []
    (guarded_init initial enableColor out) (fun t owns => by cases owns) r.reaches
  · have releasable := releasable_of_clear guarded clear
    exact ⟨iff_of_false (fun stuck => never stuck releasable) (not_not_intro steps),
      iff_of_true releasable steps⟩
  · have stuck := stuck_of_wedged guarded wedged
    exact ⟨iff_of_true stuck interrupted, iff_of_false (never stuck) interrupted⟩

/-- SIGVMPAUSE comes between the lock and the test of a TRACE. -/
def pausedInTrace : List (Event 1) :=
  [.call (.vcpu Server.sole) (.log (traceAt [] 0 [])), .go (.vcpu Server.sole) midnight,
    .signal Server.sole .pause]

example : ¬ (system 1).Steps (fun _ s e => ¬ Interrupts s e) [] (init 1 .trace true [])
    pausedInTrace :=
  fun steps => steps.2.2.1 ⟨rfl, rfl⟩

end MiniKvm.Guarantees.LogWedge
