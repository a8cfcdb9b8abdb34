import MiniKvm.Lib.Histories
import MiniKvm.Source.LoggerThreads

/-!
# Do log lines mix?

log_log prints a line in three parts, and a thread can be stopped between any two of them, by the
scheduler or by a signal whose handler logs as well. All three parts are printed under `state.lock`,
which also covers the test of the level.
-/
namespace MiniKvm.Guarantees.LogLines
open Source Source.Logger Source.LoggerThreads Lib.Sync Lib.Histories
open Source.VcpuThread (LoggerLevel)
open Source.Server (Tid)

variable {n : Nat}

/-! ## What a trace says -/

/-- The lines that are written, by their labels. -/
def lineOf (enableColor : Bool) : Label n → List Char
  | .wrote _ tm c => logLine enableColor tm c
  | _ => []

def origin : Label n → Origin n
  | .called o _ | .wrote o _ _ | .muted o _ | .leveled o _ => o

def asked : Label n → Option Task
  | .called _ task => some task
  | _ => none

def answered : Label n → Option Task
  | .wrote _ _ c | .muted _ c => some (.log c)
  | .leveled _ level => some (.setLevel level)
  | .called _ _ => none

/-- The calls of an origin, in order. -/
def calls (o : Origin n) (past : List (Label n)) : List Task :=
  (past.filter fun l => origin l = o).filterMap asked

/-- The calls of an origin that have written a line, been held back, or set the level. -/
def answers (o : Origin n) (past : List (Label n)) : List Task :=
  (past.filter fun l => origin l = o).filterMap answered

/-- `state.level` behind a trace. -/
def levelAfter (level : LoggerLevel) (past : List (Label n)) : LoggerLevel :=
  past.foldl (fun level l =>
    match l with
    | .leveled _ level => level
    | _ => level) level

/-- A line is written where the level lets it pass, and held back where it does not. -/
def Agrees (level : LoggerLevel) : Label n → Prop
  | .wrote _ _ c => muted level c = false
  | .muted _ c => muted level c = true
  | _ => True

/-- Every call is treated by the level that the last logger_set_level has left. -/
def Filtered (level : LoggerLevel) (past : List (Label n)) : Prop :=
  AtEvery (fun before l => Agrees (levelAfter level before) l) past

theorem levelAfter_append (level : LoggerLevel) (past more : List (Label n)) :
    levelAfter level (past ++ more) = levelAfter (levelAfter level past) more :=
  List.foldl_append

/-! ## The calls under way -/

/-- What a call that has begun its line has still to print of it. -/
def owed : Place → List Char
  | .message c => c.message ++ ['\n']
  | .newline _ => ['\n']
  | _ => []

/-- What a call has still to be answered for. -/
def pending : Place → List Task
  | .lock task | .test task => [task]
  | .metadata c => [.log c]
  | _ => []

def pendingIn (h : Option VMSignal) (frames : List Frame) : List Task :=
  (frames.filter fun f => f.handler = h).flatMap fun f => pending f.place

def pendingOf (s : State n) (o : Origin n) : List Task := pendingIn o.2 (s.frames o.1)

theorem pendingIn_cons (h h' : Option VMSignal) (place : Place) (outer : List Frame) :
    pendingIn h (⟨h', place⟩ :: outer) =
      (if h' = h then pending place else []) ++ pendingIn h outer := by
  by_cases same : h' = h <;> simp [pendingIn, same]

theorem pendingIn_of_not_mem {h : Option VMSignal} {frames : List Frame}
    (absent : h ∉ frames.map Frame.handler) : pendingIn h frames = [] := by
  have none : (frames.filter fun f => f.handler = h) = [] := by
    refine List.filter_eq_nil_iff.mpr fun f member => ?_
    simp only [decide_eq_true_eq]
    exact fun same => absent (same ▸ List.mem_map_of_mem member)
  rw [pendingIn, none]
  rfl

/-- A step in the name of one origin keeps the account of every other. -/
theorem answers_step {past : List (Label n)} {s u : State n} {o : Origin n}
    {label : Option (Label n)} (before : ∀ o, calls o past = answers o past ++ pendingOf s o)
    (mine : ∀ l ∈ label, origin l = o) (others : ∀ o', o' ≠ o → pendingOf u o' = pendingOf s o')
    (here : pendingOf s o ++ label.toList.filterMap asked =
      label.toList.filterMap answered ++ pendingOf u o) (o' : Origin n) :
    calls o' (past ++ label.toList) = answers o' (past ++ label.toList) ++ pendingOf u o' := by
  have account := before o'
  unfold calls answers at account ⊢
  rw [List.filter_append, List.filterMap_append, List.filterMap_append, account]
  by_cases same : o' = o
  · subst same
    have all : label.toList.filter (fun l => origin l = o') = label.toList :=
      List.filter_eq_self.mpr fun l member => by simpa using mine l (by simpa using member)
    rw [all, List.append_assoc, here, List.append_assoc]
  · have none : label.toList.filter (fun l => origin l = o') = [] := by
      refine List.filter_eq_nil_iff.mpr fun l member => ?_
      simpa [mine l (by simpa using member)] using Ne.symm same
    rw [none, others o' same]
    simp

/-! ## What every step keeps -/

theorem owed_of_outside {frames : List Frame} (outside : Outside frames) :
    frames.flatMap (fun f => owed f.place) = [] := by
  refine List.flatMap_eq_nil_iff.mpr fun f member => ?_
  have notInside := outside f member
  cases at_ : f.place <;> simp_all [Place.inside, owed]

/-- What the owner of the lock has still to print of its line. -/
def State.owed (s : State n) : List Char :=
  match s.lock.owner with
  | none => []
  | some t => (s.frames t).flatMap fun f => LogLines.owed f.place

/-- One access prints the next part of the line that its label stands for. -/
theorem advance_text {s : State n} {t : Tid n} {tm : Tm} {h : Option VMSignal} {place next : Place}
    {text : List Char} {level : LoggerLevel} {outer : List Frame}
    (at_ : s.frames t = ⟨h, place⟩ :: outer)
    (goes : place.advance s tm = some (next, text, level)) :
    text ++ owed next =
      owed place ++ (label s (.go t tm)).toList.flatMap (lineOf s.enableColor) := by
  unfold Place.advance at goes
  split at goes
  · next c =>
    cases goes
    by_cases quiet : muted s.level c = true
    · simp [label, at_, quiet, owed, lineOf]
    · simp [label, at_, quiet, owed]
  · cases goes
    simp [label, at_, owed, lineOf]
  · cases goes
    simp [label, at_, owed, lineOf, logLine]
  · cases goes
    simp [label, at_, owed]
  · cases goes
    simp [label, at_, owed]
  · cases goes
  · cases goes

/-- One access answers the call, or leaves it pending. -/
theorem advance_pending {s : State n} {t : Tid n} {tm : Tm} {h : Option VMSignal}
    {place next : Place} {text : List Char} {level : LoggerLevel} {outer : List Frame}
    (at_ : s.frames t = ⟨h, place⟩ :: outer)
    (goes : place.advance s tm = some (next, text, level)) :
    (∀ l ∈ label s (.go t tm), origin l = (t, h)) ∧
      pending place ++ (label s (.go t tm)).toList.filterMap asked =
        (label s (.go t tm)).toList.filterMap answered ++ pending next := by
  unfold Place.advance at goes
  split at goes
  · next c =>
    cases goes
    by_cases quiet : muted s.level c = true
    · simp [label, at_, quiet, pending, asked, answered, origin]
    · simp [label, at_, quiet, pending]
  · cases goes
    simp [label, at_, pending, asked, answered, origin]
  · cases goes
    simp [label, at_, pending, asked, answered, origin]
  · cases goes
    simp [label, at_, pending]
  · cases goes
    simp [label, at_, pending]
  · cases goes
  · cases goes

/-- One access goes by the level that it finds, and a line that passes is printed at it. -/
theorem advance_level {s : State n} {t : Tid n} {tm : Tm} {h : Option VMSignal}
    {place next : Place} {text : List Char} {level : LoggerLevel} {outer : List Frame}
    (at_ : s.frames t = ⟨h, place⟩ :: outer)
    (goes : place.advance s tm = some (next, text, level))
    (passed : ∀ c, place = .metadata c → muted s.level c = false) :
    levelAfter s.level (label s (.go t tm)).toList = level ∧
      (∀ l ∈ label s (.go t tm), Agrees s.level l) ∧
        ∀ c, next = .metadata c → muted level c = false := by
  unfold Place.advance at goes
  split at goes
  · next c =>
    cases goes
    by_cases quiet : muted s.level c = true
    · simp [label, at_, quiet, levelAfter, Agrees]
    · simp [label, at_, quiet, levelAfter]
  · cases goes
    simp [label, at_, levelAfter, Agrees]
  · cases goes
    simpa [label, at_, levelAfter, Agrees] using passed _ rfl
  · cases goes
    simp [label, at_, levelAfter]
  · cases goes
    simp [label, at_, levelAfter]
  · cases goes
  · cases goes

structure Recorded (initial : LoggerLevel) (enableColor : Bool) (out : List Char)
    (past : List (Label n)) (s : State n) : Prop where
  guarded : Guarded s
  color : s.enableColor = enableColor
  printed : s.out ++ State.owed s = out ++ past.flatMap (lineOf enableColor)
  level : s.level = levelAfter initial past
  passed : ∀ t f, f ∈ s.frames t → ∀ c, f.place = .metadata c → muted s.level c = false
  filtered : Filtered initial past
  answers : ∀ o, calls o past = LogLines.answers o past ++ pendingOf s o

theorem recorded_init (level : LoggerLevel) (enableColor : Bool) (out : List Char) :
    Recorded level enableColor out [] (init n level enableColor out) where
  guarded := guarded_init level enableColor out
  color := rfl
  printed := by simp [State.owed, init, Mutex.unowned]
  level := rfl
  passed _ _ := nofun
  filtered := atEvery_nil _
  answers _ := rfl

theorem owed_congr {s u : State n} (lock : u.lock = s.lock)
    (same : ∀ t, s.lock.owner = some t →
      (u.frames t).flatMap (fun f => owed f.place) = (s.frames t).flatMap fun f => owed f.place) :
    State.owed u = State.owed s := by
  unfold State.owed
  rw [lock]
  split
  · rfl
  · next t owns => exact same t owns

section Step

variable {initial : LoggerLevel} {enableColor : Bool} {out : List Char} {past : List (Label n)}
  {s : State n}

/-- A call begins, below the calls that it interrupts. -/
theorem recorded_push (r : Recorded initial enableColor out past s) {t : Tid n}
    {h : Option VMSignal} {task : Task} (unblocked : h ∉ (s.frames t).map Frame.handler)
    (guarded : Guarded (s.put t (⟨h, .lock task⟩ :: s.frames t))) :
    Recorded initial enableColor out (past ++ [.called (t, h) task])
      (s.put t (⟨h, .lock task⟩ :: s.frames t)) := by
  have label : [Label.called (t, h) task] = (some (Label.called (t, h) task)).toList := rfl
  refine ⟨guarded, r.color, ?_, ?_, ?_, ?_, ?_⟩
  · have owed_eq : State.owed (s.put t (⟨h, .lock task⟩ :: s.frames t)) = State.owed s := by
      refine owed_congr rfl fun v owns => ?_
      rw [State.put_frames]
      split
      · next same => simp [same, owed]
      · rfl
    simpa [owed_eq, lineOf] using r.printed
  · rw [levelAfter_append]
    exact r.level
  · intro v f member c at_
    rw [State.put_frames] at member
    split at member
    · next same =>
      rcases List.mem_cons.mp member with rfl | member
      · cases at_
      · exact r.passed t f member c at_
    · exact r.passed v f member c at_
  · rw [label]
    exact r.filtered.append (by rintro l ⟨⟩; trivial)
  · rw [label]
    refine answers_step (o := (t, h)) r.answers (by rintro l ⟨⟩; rfl) (fun o other => ?_) ?_
    · simp only [pendingOf, State.put_frames]
      split
      · next same =>
        have apart : h ≠ o.2 := fun is => other (Prod.ext same is.symm)
        rw [pendingIn_cons, if_neg apart, List.nil_append, same]
      · rfl
    · simp [pendingOf, State.put_frames, pendingIn_cons, pendingIn_of_not_mem unblocked, pending,
        asked, answered]

/-- The owner of the lock makes its next access. -/
theorem recorded_advance (r : Recorded initial enableColor out past s) {t : Tid n} {tm : Tm}
    {h : Option VMSignal} {place next : Place} {text : List Char} {level : LoggerLevel}
    {outer : List Frame} (at_ : s.frames t = ⟨h, place⟩ :: outer)
    (goes : place.advance s tm = some (next, text, level))
    (guarded : Guarded { s.put t (⟨h, next⟩ :: outer) with out := s.out ++ text, level := level }) :
    Recorded initial enableColor out (past ++ (label s (.go t tm)).toList)
      { s.put t (⟨h, next⟩ :: outer) with out := s.out ++ text, level := level } := by
  obtain ⟨owns, others⟩ := r.guarded.top at_ (Place.advance_inside goes).1
  have filters := advance_level at_ goes (r.passed t ⟨h, place⟩ (by simp [at_]))
  refine ⟨guarded, r.color, ?_, ?_, ?_, ?_, ?_⟩
  · have before : State.owed s = owed place := by
      simp [State.owed, owns, at_, owed_of_outside others]
    have after : State.owed { s.put t (⟨h, next⟩ :: outer) with
        out := s.out ++ text, level := level } = owed next := by
      simp [State.owed, owns, State.put_frames, owed_of_outside others]
    have printed := r.printed
    have line := advance_text at_ goes
    rw [r.color] at line
    rw [before] at printed
    rw [after, List.append_assoc, line, ← List.append_assoc, printed, List.flatMap_append,
      List.append_assoc]
  · rw [levelAfter_append, ← r.level]
    exact filters.1.symm
  · intro v f member c isNext
    rw [State.put_frames] at member
    split at member
    · rcases List.mem_cons.mp member with rfl | member
      · exact filters.2.2 c isNext
      · exact absurd (others f member) (by simp [isNext, Place.inside])
    · next apart =>
      -- a line that waits to be printed is one of the owner's
      have outside := r.guarded.others v (by rw [owns]; simpa using Ne.symm apart) f member
      exact absurd outside (by simp [isNext, Place.inside])
  · exact AtEvery.append r.filtered (r.level ▸ filters.2.1)
  · obtain ⟨mine, account⟩ := advance_pending at_ goes
    have handlers := r.guarded.handlers t
    rw [at_, List.map_cons, List.nodup_cons] at handlers
    refine answers_step (o := (t, h)) r.answers mine (fun o other => ?_) ?_
    · simp only [pendingOf, State.put_frames]
      split
      · next same =>
        have apart : h ≠ o.2 := fun is => other (Prod.ext same is.symm)
        rw [pendingIn_cons, if_neg apart, same, at_, pendingIn_cons, if_neg apart]
      · rfl
    · simpa [pendingOf, State.put_frames, at_, pendingIn_cons, pendingIn_of_not_mem handlers.1]
        using account

/-- A call takes the lock, or gives it back and returns. -/
theorem recorded_silent {u : State n} (r : Recorded initial enableColor out past s)
    (guarded : Guarded u) (color : u.enableColor = s.enableColor) (level : u.level = s.level)
    (out_ : u.out = s.out) (owed_ : State.owed u = State.owed s)
    (places : ∀ t f, f ∈ u.frames t → ∀ c, f.place = .metadata c → f ∈ s.frames t)
    (pending_ : ∀ o, pendingOf u o = pendingOf s o) :
    Recorded initial enableColor out past u where
  guarded := guarded
  color := color.trans r.color
  printed := by
    rw [out_, owed_]
    exact r.printed
  level := level.trans r.level
  passed t f member c isLine := level ▸ r.passed t f (places t f member c isLine) c isLine
  filtered := r.filtered
  answers o := by
    rw [pending_ o]
    exact r.answers o

theorem recorded_step {u : State n} {e : Event n} (r : Recorded initial enableColor out past s)
    (moves : step s e = some u) :
    Recorded initial enableColor out (past ++ (label s e).toList) u := by
  have guarded := guarded_step r.guarded moves
  cases step_cases moves with
  | @call t task idle =>
    have pushed : [⟨none, .lock task⟩] = (⟨none, .lock task⟩ :: s.frames t : List Frame) := by
      rw [idle]
    rw [pushed] at guarded ⊢
    exact recorded_push r (by simp [idle]) guarded
  | @quiet i sig silent => simpa [label, silent] using r
  | @signal i sig c logs unblocked =>
    simpa [label, logs] using recorded_push r unblocked guarded
  | @acquire t tm h task outer at_ free =>
    have outside : Outside outer := fun f member =>
      r.guarded.others t (by simp [free]) f (by simp [at_, member])
    have silent : label s (.go t tm) = none := by simp [label, at_]
    rw [silent, Option.toList_none, List.append_nil]
    refine recorded_silent r guarded rfl rfl rfl ?_ (fun v f member c isLine => ?_) fun o => ?_
    · have nothing : owed (.test task) = [] := rfl
      simp [State.owed, free, State.put_frames, nothing, owed_of_outside outside]
    · simp only [State.put_frames] at member
      split at member
      · next same =>
        rcases List.mem_cons.mp member with rfl | member
        · cases isLine
        · simp [same, at_, member]
      · exact member
    · simp only [pendingOf, State.put_frames]
      split
      · next same => rw [same, at_, pendingIn_cons, pendingIn_cons]; rfl
      · rfl
  | @release t tm h outer at_ =>
    obtain ⟨owns, others⟩ := r.guarded.top at_ rfl
    have silent : label s (.go t tm) = none := by simp [label, at_]
    rw [silent, Option.toList_none, List.append_nil]
    refine recorded_silent r guarded rfl rfl rfl ?_ (fun v f member c isLine => ?_) fun o => ?_
    · have nothing : owed .unlock = [] := rfl
      simp [State.owed, owns, at_, Mutex.unowned, nothing, owed_of_outside others]
    · simp only [State.put_frames] at member
      split at member
      · next same => simp [same, at_, member]
      · exact member
    · simp only [pendingOf, State.put_frames]
      split
      · next same => simp [same, at_, pendingIn_cons, pending]
      · rfl
  | advance at_ goes => exact recorded_advance r at_ goes guarded

end Step

/-- Whatever the threads and the signals do, the output is that of whole lines one after the other, in
the order of their calls' turns with the lock, but for what the owner of the lock has still to print
of the last one. Each line passes the level set last before it. And every origin gets exactly its own
calls answered, in order: a line where the level lets it pass, none where it does not. -/
theorem log_lines_whole (initial : LoggerLevel) (enableColor : Bool) (out : List Char)
    (r : (system n).Run (init n initial enableColor out)) :
    let past := (system n).trace (init n initial enableColor out) r.events
    (∃ rest, r.final.out ++ rest = out ++ past.flatMap (lineOf enableColor) ∧
      (r.final.lock.owner = none → rest = []) ∧
      ∀ t, r.final.lock.owner = some t → ∃ f ∈ r.final.frames t, rest = owed f.place) ∧
    Filtered initial past ∧
    ∀ o, calls o past = answers o past ++ pendingOf r.final o := by
  have recorded := (system n).invariant_run (Recorded initial enableColor out)
    (fun past s e u before _ moves => recorded_step before moves)
    (recorded_init initial enableColor out)
    ((system n).steps_of_forall (fun _ _ _ => trivial) _ _ _) r.reaches
  refine ⟨⟨State.owed r.final, recorded.printed, fun free => ?_, fun t owns => ?_⟩,
    recorded.filtered, recorded.answers⟩
  · simp [State.owed, free]
  · obtain ⟨front, f, outer, holds⟩ := recorded.guarded.owner t owns
    refine ⟨f, by simp [holds.split], ?_⟩
    simp [State.owed, owns, holds.split, owed_of_outside holds.front, owed_of_outside holds.outer]

end MiniKvm.Guarantees.LogLines
