import MiniKvm.Lib.Lts
import MiniKvm.Lib.Sync
import MiniKvm.Source.Logger
import MiniKvm.Source.Server

/-!
# The threads that share the logger

log_log and logger_set_level as the main thread and the vcpu threads may call them, one step for the
lock, each print and the unlock. mini_kvm_vcpu_signal_handler logs too, on the stack of whatever it
interrupts; a signal is blocked in its own handler only. The output stays the same: once there are
threads, nothing calls logger_set_output. The environment chooses the calls, the signals, the
scheduling and the time of day.
-/
namespace MiniKvm.Source.LoggerThreads
open Lib.Sync Logger
open VcpuThread (LoggerLevel)
open Server (Tid)

/-! ## The calls -/

inductive Task where
  | log (c : LogCall)
  | setLevel (level : LoggerLevel)

/-- Where a call is. Past `lock` it owns `state.lock`. -/
inductive Place where
  | lock (task : Task)
  | test (task : Task)
  | metadata (c : LogCall)
  | message (c : LogCall)
  | newline (c : LogCall)
  | unlock

/-- A call on the stack of a thread, with the signal whose handler made it, if any. -/
structure Frame where
  handler : Option VMSignal
  place : Place

/-- mini_kvm_vcpu_signal_handler; SIGVMSHUTDOWN has no branch of its own. -/
def vcpuSignalHandler : VMSignal → Option LogCall
  | .pause => some (traceAt "kvm.c".toList 169 "pause signal received".toList)
  | .resume => some (traceAt "kvm.c".toList 171 "resume signal received".toList)
  | .shutdown => none

/-- `frames` are the calls of each thread, innermost first; `out` is what has been printed. -/
structure State (n : Nat) where
  lock : Mutex (Tid n)
  level : LoggerLevel
  enableColor : Bool
  frames : Tid n → List Frame
  out : List Char

inductive Event (n : Nat) where
  /-- The program of a thread calls the logger. -/
  | call (t : Tid n) (task : Task)
  | signal (i : Fin n) (sig : VMSignal)
  /-- The innermost call of a thread goes on. -/
  | go (t : Tid n) (tm : Tm)

/-- A call is known by its thread and, in a handler, by its signal. -/
abbrev Origin (n : Nat) := Tid n × Option VMSignal

/-- What a trace tells of the calls: that they are made, and what came of them. -/
inductive Label (n : Nat) where
  | called (o : Origin n) (task : Task)
  | wrote (o : Origin n) (tm : Tm) (c : LogCall)
  | muted (o : Origin n) (c : LogCall)
  | leveled (o : Origin n) (level : LoggerLevel)

section Steps

variable {n : Nat}

def State.put (s : State n) (t : Tid n) (frames : List Frame) : State n :=
  { s with frames := Function.update s.frames t frames }

/-- The call owns `state.lock`. -/
def Place.inside : Place → Bool
  | .lock _ => false
  | _ => true

/-- The accesses between the lock and the unlock: where the call goes, what it prints, and
`state.level` behind it. -/
def Place.advance (s : State n) (tm : Tm) : Place → Option (Place × List Char × LoggerLevel)
  | .test (.log c) => some (if muted s.level c then .unlock else .metadata c, [], s.level)
  | .test (.setLevel level) => some (.unlock, [], level)
  | .metadata c => some (.message c, Logger.metadata s.enableColor tm c, s.level)
  | .message c => some (.newline c, c.message, s.level)
  | .newline _ => some (.unlock, ['\n'], s.level)
  | .lock _ | .unlock => none

def goStep (s : State n) (t : Tid n) (tm : Tm) : Option (State n) :=
  match s.frames t with
  | [] => none
  | ⟨h, .lock task⟩ :: outer =>
    (s.lock.lock t).map fun lock => { s.put t (⟨h, .test task⟩ :: outer) with lock }
  | ⟨_, .unlock⟩ :: outer => some { s.put t outer with lock := s.lock.unlock }
  | ⟨h, place⟩ :: outer =>
    (place.advance s tm).map fun next =>
      { s.put t (⟨h, next.1⟩ :: outer) with out := s.out ++ next.2.1, level := next.2.2 }

def step (s : State n) : Event n → Option (State n)
  | .call t task =>
    if (s.frames t).isEmpty then some (s.put t [⟨none, .lock task⟩]) else none
  | .signal i sig =>
    if some sig ∈ (s.frames (.vcpu i)).map Frame.handler then none
    else
      match vcpuSignalHandler sig with
      | none => some s
      | some c => some (s.put (.vcpu i) (⟨some sig, .lock (.log c)⟩ :: s.frames (.vcpu i)))
  | .go t tm => goStep s t tm

def label (s : State n) : Event n → Option (Label n)
  | .call t task => some (.called (t, none) task)
  | .signal i sig => (vcpuSignalHandler sig).map fun c => .called (.vcpu i, some sig) (.log c)
  | .go t tm =>
    match s.frames t with
    | ⟨h, .test (.log c)⟩ :: _ => if muted s.level c then some (.muted (t, h) c) else none
    | ⟨h, .test (.setLevel level)⟩ :: _ => some (.leveled (t, h) level)
    | ⟨h, .metadata c⟩ :: _ => some (.wrote (t, h) tm c)
    | _ => none

def system (n : Nat) : Lib.Lts.System (State n) (Event n) (Label n) := ⟨step, label⟩

/-- The logger when the threads start: `state.lock` is free and nobody is in a call. -/
def init (n : Nat) (level : LoggerLevel) (enableColor : Bool) (out : List Char) : State n where
  lock := .unowned
  level := level
  enableColor := enableColor
  frames := fun _ => []
  out := out

/-! ## Inversion -/

theorem State.put_frames (s : State n) (t u : Tid n) (frames : List Frame) :
    (s.put t frames).frames u = if u = t then frames else s.frames u := by
  simp only [State.put, Function.update_apply]

@[simp] theorem State.put_lock (s : State n) (t : Tid n) (frames : List Frame) :
    (s.put t frames).lock = s.lock := rfl

@[simp] theorem State.put_level (s : State n) (t : Tid n) (frames : List Frame) :
    (s.put t frames).level = s.level := rfl

@[simp] theorem State.put_enableColor (s : State n) (t : Tid n) (frames : List Frame) :
    (s.put t frames).enableColor = s.enableColor := rfl

@[simp] theorem State.put_out (s : State n) (t : Tid n) (frames : List Frame) :
    (s.put t frames).out = s.out := rfl

/-- What an event does. -/
inductive StepCases (s : State n) : Event n → State n → Prop where
  | call {t : Tid n} {task : Task} (idle : s.frames t = []) :
    StepCases s (.call t task) (s.put t [⟨none, .lock task⟩])
  | quiet {i : Fin n} {sig : VMSignal} (silent : vcpuSignalHandler sig = none) :
    StepCases s (.signal i sig) s
  | signal {i : Fin n} {sig : VMSignal} {c : LogCall} (logs : vcpuSignalHandler sig = some c)
    (unblocked : some sig ∉ (s.frames (.vcpu i)).map Frame.handler) :
    StepCases s (.signal i sig)
      (s.put (.vcpu i) (⟨some sig, .lock (.log c)⟩ :: s.frames (.vcpu i)))
  | acquire {t : Tid n} {tm : Tm} {h : Option VMSignal} {task : Task} {outer : List Frame}
    (at_ : s.frames t = ⟨h, .lock task⟩ :: outer) (free : s.lock.owner = none) :
    StepCases s (.go t tm) { s.put t (⟨h, .test task⟩ :: outer) with lock := ⟨some t⟩ }
  | release {t : Tid n} {tm : Tm} {h : Option VMSignal} {outer : List Frame}
    (at_ : s.frames t = ⟨h, .unlock⟩ :: outer) :
    StepCases s (.go t tm) { s.put t outer with lock := .unowned }
  | advance {t : Tid n} {tm : Tm} {h : Option VMSignal} {place next : Place} {text : List Char}
    {level : LoggerLevel} {outer : List Frame} (at_ : s.frames t = ⟨h, place⟩ :: outer)
    (goes : place.advance s tm = some (next, text, level)) :
    StepCases s (.go t tm)
      { s.put t (⟨h, next⟩ :: outer) with out := s.out ++ text, level := level }

theorem step_cases {s u : State n} {e : Event n} (h : step s e = some u) : StepCases s e u := by
  cases e with
  | call t task =>
    simp only [step, Option.ite_none_right_eq_some, Option.some.injEq, List.isEmpty_iff] at h
    obtain ⟨idle, rfl⟩ := h
    exact .call idle
  | signal i sig =>
    simp only [step] at h
    split at h
    · cases h
    · next unblocked =>
      split at h
      · next silent =>
        cases h
        exact .quiet silent
      · next c logs =>
        cases h
        exact .signal logs unblocked
  | go t tm =>
    change goStep s t tm = some u at h
    unfold goStep at h
    split at h
    · cases h
    · next at_ =>
      obtain ⟨lock, taken, rfl⟩ := Option.map_eq_some_iff.mp h
      obtain ⟨free, rfl⟩ := Mutex.lock_eq_some.mp taken
      exact .acquire at_ free
    · next at_ =>
      cases h
      exact .release at_
    · next at_ =>
      obtain ⟨⟨next, text, level⟩, goes, rfl⟩ := Option.map_eq_some_iff.mp h
      exact .advance at_ goes

theorem step_advance {s : State n} {t : Tid n} {tm : Tm} {h : Option VMSignal}
    {place next : Place} {text : List Char} {level : LoggerLevel} {outer : List Frame}
    (at_ : s.frames t = ⟨h, place⟩ :: outer) (goes : place.advance s tm = some (next, text, level)) :
    step s (.go t tm) = some { s.put t (⟨h, next⟩ :: outer) with
      out := s.out ++ text, level := level } := by
  cases place with
  | lock task => cases goes
  | unlock => cases goes
  | _ => simp only [step, goStep, at_, goes, Option.map_some]

/-- The accesses under the lock lead from one to the next. -/
theorem Place.advance_inside {s : State n} {tm : Tm} {place next : Place} {text : List Char}
    {level : LoggerLevel} (goes : place.advance s tm = some (next, text, level)) :
    place.inside = true ∧ next.inside = true := by
  unfold Place.advance at goes
  split at goes
  · cases goes
    split <;> exact ⟨rfl, rfl⟩
  · cases goes
    exact ⟨rfl, rfl⟩
  · cases goes
    exact ⟨rfl, rfl⟩
  · cases goes
    exact ⟨rfl, rfl⟩
  · cases goes
    exact ⟨rfl, rfl⟩
  · cases goes
  · cases goes

/-! ## Who is inside -/

/-- The frames of a thread that does not own the lock. -/
def Outside (frames : List Frame) : Prop := ∀ f ∈ frames, f.place.inside = false

/-- The frames of its owner: one of them is inside. -/
structure Holds (frames front : List Frame) (f : Frame) (outer : List Frame) : Prop where
  split : frames = front ++ f :: outer
  inside : f.place.inside = true
  front : Outside front
  outer : Outside outer

/-- Where the innermost call of the owner is inside, no other call is on top of it. -/
theorem Holds.front_nil {frames front outer outer' : List Frame} {f g : Frame}
    (holds : Holds frames front f outer) (top : frames = g :: outer')
    (inside : g.place.inside = true) : front = [] := by
  have split := top.symm.trans holds.split
  cases front with
  | nil => rfl
  | cons first front =>
    obtain ⟨rfl, -⟩ := List.cons.inj split
    have outside := holds.front g (by simp)
    rw [inside] at outside
    cases outside

/-- The lock is owned by the thread of the call that is inside, and no signal has two handlers on
one stack. -/
structure Guarded (s : State n) : Prop where
  owner : ∀ t, s.lock.owner = some t → ∃ front f outer, Holds (s.frames t) front f outer
  others : ∀ t, s.lock.owner ≠ some t → Outside (s.frames t)
  handlers : ∀ t, ((s.frames t).map Frame.handler).Nodup

theorem guarded_init (level : LoggerLevel) (enableColor : Bool) (out : List Char) :
    Guarded (init n level enableColor out) where
  owner t owns := by cases owns
  others t _ := nofun
  handlers t := List.nodup_nil

/-- The innermost call of the owner, when it can go on, is the one inside. -/
theorem Guarded.top {s : State n} (guarded : Guarded s) {t : Tid n} {f : Frame} {outer : List Frame}
    (at_ : s.frames t = f :: outer) (inside : f.place.inside = true) :
    s.lock.owner = some t ∧ Outside outer := by
  have owns : s.lock.owner = some t := by
    by_contra other
    have outside := guarded.others t other f (by simp [at_])
    rw [inside] at outside
    cases outside
  refine ⟨owns, ?_⟩
  obtain ⟨front, g, rest, holds⟩ := guarded.owner t owns
  obtain rfl := holds.front_nil at_ inside
  obtain ⟨-, rfl⟩ := List.cons.inj (at_.symm.trans holds.split)
  exact holds.outer

/-- The stack of one thread changes, and the owner stays the same. -/
theorem Guarded.change {s u : State n} (guarded : Guarded s) (t : Tid n)
    (lock : u.lock = s.lock) (frames : ∀ v, v ≠ t → u.frames v = s.frames v)
    (owner : s.lock.owner = some t → ∃ front f outer, Holds (u.frames t) front f outer)
    (other : s.lock.owner ≠ some t → Outside (u.frames t))
    (handlers : ((u.frames t).map Frame.handler).Nodup) : Guarded u := by
  refine ⟨fun v owns => ?_, fun v notOwns => ?_, fun v => ?_⟩
  · rw [lock] at owns
    by_cases same : v = t
    · subst same
      exact owner owns
    · rw [frames v same]
      exact guarded.owner v owns
  · rw [lock] at notOwns
    by_cases same : v = t
    · subst same
      exact other notOwns
    · rw [frames v same]
      exact guarded.others v notOwns
  · by_cases same : v = t
    · subst same
      exact handlers
    · rw [frames v same]
      exact guarded.handlers v

theorem outside_nil : Outside [] := nofun

theorem Outside.cons {f : Frame} {frames : List Frame} (first : f.place.inside = false)
    (others : Outside frames) : Outside (f :: frames) :=
  List.forall_mem_cons.mpr ⟨first, others⟩

theorem guarded_step {s u : State n} {e : Event n} (guarded : Guarded s)
    (moves : step s e = some u) : Guarded u := by
  cases step_cases moves with
  | @call t task idle =>
    have here : (s.put t [⟨none, .lock task⟩]).frames t = [⟨none, .lock task⟩] := by
      simp [State.put_frames]
    refine guarded.change t rfl (fun v other => by simp [State.put_frames, other]) ?_ ?_ ?_
    · intro owns
      obtain ⟨front, f, outer, holds⟩ := guarded.owner t owns
      exact absurd (idle.symm.trans holds.split) (by simp)
    · intro _
      rw [here]
      exact outside_nil.cons rfl
    · rw [here]
      exact List.nodup_singleton _
  | quiet silent => exact guarded
  | @signal i sig c logs unblocked =>
    have here : (s.put (.vcpu i) (⟨some sig, .lock (.log c)⟩ :: s.frames (.vcpu i))).frames
        (.vcpu i) = ⟨some sig, .lock (.log c)⟩ :: s.frames (.vcpu i) := by
      simp [State.put_frames]
    refine guarded.change (.vcpu i) rfl (fun v other => by simp [State.put_frames, other]) ?_ ?_ ?_
    · -- the handler's call stands before the one that is inside
      intro owns
      obtain ⟨front, f, outer, holds⟩ := guarded.owner _ owns
      refine ⟨⟨some sig, .lock (.log c)⟩ :: front, f, outer, ?_, holds.inside, ?_, holds.outer⟩
      · rw [here, holds.split, List.cons_append]
      · exact holds.front.cons rfl
    · intro other
      rw [here]
      exact (guarded.others _ other).cons rfl
    · rw [here, List.map_cons, List.nodup_cons]
      exact ⟨unblocked, guarded.handlers _⟩
  | @acquire t tm h task outer at_ free =>
    have outside (v : Tid n) : Outside (s.frames v) := guarded.others v (by simp [free])
    have others : Outside outer := fun f member => outside t f (by simp [at_, member])
    refine ⟨fun v owns => ?_, fun v other => ?_, fun v => ?_⟩
    · cases owns
      exact ⟨[], ⟨h, .test task⟩, outer, by simp [State.put_frames], rfl, outside_nil, others⟩
    · have apart : v ≠ t := fun same => other (by rw [same])
      simpa [State.put_frames, apart] using outside v
    · by_cases same : v = t
      · subst same
        have before := guarded.handlers v
        rw [at_] at before
        simpa [State.put_frames] using before
      · simpa [State.put_frames, same] using guarded.handlers v
  | @release t tm h outer at_ =>
    obtain ⟨owns, others⟩ := guarded.top at_ rfl
    refine ⟨nofun, fun v _ => ?_, fun v => ?_⟩
    · by_cases same : v = t
      · subst same
        simpa [State.put_frames] using others
      · have other : s.lock.owner ≠ some v := by
          rw [owns]
          exact fun is => same (Option.some.inj is).symm
        simpa [State.put_frames, same] using guarded.others v other
    · by_cases same : v = t
      · subst same
        have before := guarded.handlers v
        rw [at_, List.map_cons, List.nodup_cons] at before
        simpa [State.put_frames] using before.2
      · simpa [State.put_frames, same] using guarded.handlers v
  | @advance t tm h place next text level outer at_ goes =>
    obtain ⟨inside, inside'⟩ := Place.advance_inside goes
    obtain ⟨owns, others⟩ := guarded.top at_ inside
    refine guarded.change t rfl (fun v other => by simp [State.put_frames, other]) ?_ ?_ ?_
    · intro _
      exact ⟨[], ⟨h, next⟩, outer, by simp [State.put_frames], inside', outside_nil, others⟩
    · exact fun other => absurd owns other
    · have before := guarded.handlers t
      rw [at_] at before
      simpa [State.put_frames] using before

end Steps

end MiniKvm.Source.LoggerThreads
