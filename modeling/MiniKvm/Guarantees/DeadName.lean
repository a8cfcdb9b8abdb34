import MiniKvm.Source.RunProcess

/-!
# Does a dead VM block its name?

The next run looks at the pid a dead one has left, and finds nobody there. It does not look whether there
is a pid at all, and it does not remove a socket before it binds its own.
-/
namespace MiniKvm.Guarantees.DeadName
open Lib Source Source.VmFiles Source.RunProcess

/-! ## The property -/

/-- The pids in use when the next process runs: its own, and `others` outside of mini_kvm. -/
def nextEnv (own : Int32) (others : Int32 → Bool) (pidfileFirst : Bool) : Env where
  kill p := p = 0 || p = own || others p
  pidfileFirst := pidfileFirst

/-- A process that runs alone comes past init_filesystem and the bind of its socket. -/
def Starts (env : Env) (own : Int32) (fs : Fs) : Prop :=
  ∃ fs', Relation.ReflTransGen (Next env own) (fs, .idle) (fs', .serving)

section World

variable {ι : Type} [DecidableEq ι] [Fintype ι]

def quiet (w : World ι) : Bool := decide (∀ i, (w.pc i).alive = false)

/-- No recorded pid is in use again, not by the next process either. -/
def NotReused (pid : ι → Int32) (own : Int32) (others : Int32 → Bool) : Prop :=
  ∀ i, pid i ≠ 0 ∧ pid i ≠ own ∧ others (pid i) = false

/-- No socket and no empty pidfile. -/
def clean (fs : Fs) : Bool :=
  match fs.dir with
  | none => true
  | some d => !d.sock &&
    match d.pidfile with
    | none => true
    | some file => fs.content file ≠ []

/-- The end of the last process that is alive comes on a clean directory. -/
def tidy (pid : ι → Int32) (w : World ι) (e : Event ι) : Bool :=
  match step pid w e with
  | none => true
  | some t => !quiet t || clean w.fs

end World

/-! ## The next run -/

section Alone

variable {env : Env} {own : Int32} {fs fs' : Fs} {pc pc' : Pc} {d : Dir}

/-- Every process of that name has recorded its pid whole, or nothing. -/
def Recorded {ι : Type} (pid : ι → Int32) (fs : Fs) : Prop :=
  ∀ f, fs.content f = [] ∨ ∃ i, fs.content f = intBytes (pid i)

variable {ι : Type} {pid : ι → Int32} {others : Int32 → Bool} {o : Bool}

/-- A pidfile that has nothing in it. -/
def emptyPidfile (fs : Fs) : Bool := decide (fs.view = .present (some []))

theorem clean_eq (fs : Fs) : clean fs = (!fs.sockThere && !emptyPidfile fs) := by
  unfold clean Fs.sockThere emptyPidfile Fs.view
  cases fs.dir with
  | none => simp
  | some d =>
    cases name : d.pidfile with
    | none => simp [name]
    | some file => simp [name]

/-- Every pid that is left is that of a process that is no more, but an empty pidfile is read as 0. -/
theorem initFilesystem_of_recorded (recorded : Recorded pid fs)
    (unused : NotReused pid own others) :
    if emptyPidfile fs then
      (initFilesystem ⟨true, true⟩ (nextEnv own others o).kill own fs.view).1 =
        .error .alreadyRunning
    else
      initFilesystem ⟨true, true⟩ (nextEnv own others o).kill own fs.view =
        (.ok (), .present (some (intBytes own))) := by
  unfold emptyPidfile
  cases found : fs.dir with
  | none => simp [Fs.view, found, initFilesystem, writePidfile]
  | some d =>
    cases name : d.pidfile with
    | none => simp [Fs.view, found, name, initFilesystem, writePidfile]
    | some file =>
      have view : fs.view = .present (some (fs.content file)) := by simp [Fs.view, found, name]
      rw [view]
      rcases recorded file with empty | ⟨i, bytes⟩
      · simp [empty, initFilesystem, readInt_nil, nextEnv]
      · obtain ⟨nonzero, notOwn, dead⟩ := unused i
        have full : intBytes (pid i) ≠ [] := by
          intro empty
          have width : (intBytes (pid i)).length = 4 := LittleEndian.length_encode _ _
          rw [empty] at width
          cases width
        simp [bytes, initFilesystem, writePidfile, readInt_intBytes, nextEnv, nonzero, notOwn, dead,
          full]

/-! ### A run that does not come to serve -/

/-- A place from which no process comes to serve any more. -/
def Over : Pc → Prop
  | .opendir | .readdir _ | .remove _ | .leaving _ | .exited => True
  | _ => False

theorem over_next {s t : Fs × Pc} (behind : s.2 = .serving ∨ Over s.2) (next : Next env own s t) :
    Over t.2 ∧ t.2 ≠ .leaving false := by
  obtain ⟨fs, pc⟩ := s
  rcases behind with serving | isOver
  · cases serving
    cases next
    exact ⟨trivial, by simp⟩
  · cases pc with
    | opendir =>
      simp only [Next, procStep] at next
      split at next <;> cases next <;> exact ⟨trivial, by simp⟩
    | readdir fd =>
      cases next
      exact ⟨trivial, by simp⟩
    | remove entries =>
      cases entries with
      | nil =>
        cases next
        exact ⟨trivial, by simp⟩
      | cons entry rest =>
        simp only [Next, procStep] at next
        split at next <;> cases next <;> exact ⟨trivial, by simp⟩
    | leaving passed =>
      cases next
      exact ⟨trivial, by simp⟩
    | exited => cases next
    | _ => exact isOver.elim

theorem over_of_reaches {s t : Fs × Pc} (behind : s.2 = .serving ∨ Over s.2)
    (reaches : Relation.ReflTransGen (Next env own) s t) :
    t = s ∨ Over t.2 ∧ t.2 ≠ .leaving false := by
  induction reaches with
  | refl => exact .inl rfl
  | tail _ next ih =>
    rcases ih with rfl | ⟨isOver, -⟩
    · exact .inr (over_next behind next)
    · exact .inr (over_next (.inr isOver) next)

theorem never_serves {s u : Fs × Pc} (isOver : Over s.2)
    (reaches : Relation.ReflTransGen (Next env own) s u) : u.2 ≠ .serving := by
  have still : Over u.2 := by
    rcases over_of_reaches (.inr isOver) reaches with rfl | ⟨still, -⟩
    · exact isOver
    · exact still
  intro serving
  rw [serving] at still
  exact still

/-- A process serves at most once, so a run does not serve that comes to a place from which it does
not, other than by serving. -/
theorem not_starts {s : Fs × Pc}
    (reaches : Relation.ReflTransGen (Next env own) (fs, .idle) s)
    (never : ∀ u, Relation.ReflTransGen (Next env own) s u → u.2 ≠ .serving)
    (before : s.2 = .leaving false ∨ ¬ Over s.2) : ¬ Starts env own fs := by
  rintro ⟨fs', serves⟩
  rcases Relation.ReflTransGen.total_of_right_unique next_unique reaches serves with ahead | back
  · exact never _ ahead rfl
  · rcases over_of_reaches (.inl rfl) back with rfl | ⟨isOver, notLeaving⟩
    · exact never _ .refl rfl
    · exact before.elim notLeaving (absurd isOver)

/-- The next run starts exactly on a clean directory. -/
theorem starts_iff_clean (recorded : Recorded pid fs) (unused : NotReused pid own others) :
    Starts (nextEnv own others o) own fs ↔ clean fs = true := by
  have steps := next_initFilesystem (nextEnv own others o) own { fs with root := true }
  have recordedThere : Recorded pid { fs with root := true } := recorded
  have returns := initFilesystem_of_recorded (o := o) recordedThere unused
  have same : emptyPidfile { fs with root := true } = emptyPidfile fs := rfl
  rw [clean_eq]
  cases empty : emptyPidfile fs with
  | true =>
    -- init_filesystem fails.
    rw [same, empty, if_pos rfl] at returns
    simp only [Bool.not_true, Bool.and_false, Bool.false_eq_true, iff_false]
    split at steps
    · next result =>
      rw [result] at returns
      cases returns
    · refine not_starts (next_root.trans steps.1) (fun u ahead => ?_) (.inl rfl)
      exact never_serves (s := (_, .leaving false)) trivial ahead
  | false =>
    rw [same, empty, if_neg Bool.false_ne_true] at returns
    rw [returns] at steps
    obtain ⟨fs', binds, view, sock⟩ := steps
    obtain ⟨d, found⟩ : ∃ d, fs'.dir = some d := by
      cases found : fs'.dir with
      | none => simp [Fs.view, found] at view
      | some d => exact ⟨d, rfl⟩
    have same_sock : d.sock = fs.sockThere := by simpa [Fs.sockThere, found] using sock
    cases bound : fs.sockThere with
    | true =>
      -- The bind fails.
      simp only [Bool.not_true, Bool.false_and, Bool.false_eq_true, iff_false]
      have refused : Next (nextEnv own others o) own (fs', .bind) (fs', .opendir) := by
        simp [Next, procStep, Fs.bind, found, same_sock, bound]
      refine not_starts (next_root.trans binds) (fun u ahead => ?_) (.inr id)
      rcases ahead.cases_head with rfl | ⟨v, first, rest⟩
      · simp
      · cases next_unique refused first
        exact never_serves (s := (fs', .opendir)) trivial rest
    | false =>
      simp only [Bool.not_false, Bool.and_self, iff_true]
      refine ⟨{ fs' with dir := some { d with sock := true } }, (next_root.trans binds).tail ?_⟩
      simp [Next, procStep, Fs.bind, found, same_sock, bound]

end Alone

/-! ## Histories -/

section History

variable {ι : Type} {pid : ι → Int32}

theorem recorded_update {content : Nat → List UInt8} {file : Nat} {bytes : List UInt8}
    (recorded : ∀ f, content f = [] ∨ ∃ i, content f = intBytes (pid i))
    (good : bytes = [] ∨ ∃ i, bytes = intBytes (pid i)) (f : Nat) :
    Function.update content file bytes f = [] ∨
      ∃ i, Function.update content file bytes f = intBytes (pid i) := by
  by_cases same : f = file
  · subst same
    simpa using good
  · simpa [Function.update_of_ne same] using recorded f

/-- A pid is written on an empty file or on a whole pid. -/
theorem Recorded.change {i : ι} {fs fs' : Fs} {pc' : Pc} (recorded : Recorded pid fs)
    (change : Change (pid i) fs fs' pc') : Recorded pid fs' := by
  cases change with
  | same => exact recorded
  | root => exact recorded
  | mkdirat =>
    unfold Fs.mkdirat
    split <;> exact recorded
  | create made =>
    obtain ⟨d, -, -, -, -, content⟩ := Fs.createPidfile_spec made
    rw [Recorded, content]
    exact recorded_update recorded (.inl rfl)
  | write file =>
    refine recorded_update recorded (.inr ⟨i, ?_⟩)
    have width (v : Int32) : (intBytes v).length = 4 := LittleEndian.length_encode _ _
    have short : (fs.content file).length ≤ 4 := by
      rcases recorded file with empty | ⟨j, bytes⟩
      · simp [empty]
      · rw [bytes, width]
    rw [List.drop_eq_nil_of_le short, List.append_nil]
  | bind bound =>
    obtain ⟨d, -, -, rfl⟩ := Fs.bind_spec bound
    exact recorded
  | unlink removed =>
    rw [Recorded, Fs.unlink_content removed]
    exact recorded
  | rmdir =>
    unfold Fs.rmdir
    split <;> exact recorded

/-- Who ends leaves the directory as it is. -/
theorem fs_of_end {own : Int32} {fs fs' : Fs} {pc' : Pc} (change : Change own fs fs' pc')
    (ended : pc'.alive = false) : fs' = fs := by
  cases change with
  | same => rfl
  | _ => cases ended

variable [DecidableEq ι] [Fintype ι] {w t : World ι} {e : Event ι}

theorem recorded_step (h : step pid w e = some t) (recorded : Recorded pid w.fs) :
    Recorded pid t.fs := by
  cases e with
  | kill i =>
    simp only [step] at h
    split at h <;> cases h
    exact recorded
  | step i others o =>
    obtain ⟨⟨fs', pc'⟩, moved, rfl⟩ := Option.map_eq_some_iff.mp h
    exact recorded.change (procStep_change moved)

theorem fs_of_quiet (h : step pid w e = some t) (calm : quiet t = true) : t.fs = w.fs := by
  cases e with
  | kill i =>
    simp only [step] at h
    split at h <;> cases h
    rfl
  | step i others o =>
    obtain ⟨⟨fs', pc'⟩, moved, rfl⟩ := Option.map_eq_some_iff.mp h
    have ended := of_decide_eq_true calm i
    simp only [Function.update_self] at ended
    exact fs_of_end (procStep_change moved) ended

/-- Before the first run. -/
def noDirectory (root : Bool) : Fs := ⟨root, none, fun _ => [], 0⟩

/-- Whenever nobody is alive, the next run starts. -/
def NameFree (own : Int32) (others : Int32 → Bool) (pidfileFirst : Bool) (w : World ι) : Prop :=
  quiet w = true → Starts (nextEnv own others pidfileFirst) own w.fs

/-- In a history of any runs, next to each other or one after the other and killed at any point, the
name is free whenever nobody is alive exactly when each last process ends on a clean directory. -/
theorem nameFree_iff_tidy {own : Int32} {others : Int32 → Bool}
    (unused : NotReused pid own others) (o root : Bool) {es : List (Event ι)}
    (reaches : (system pid).run (init (noDirectory root)) es = some w) :
    (system pid).Throughout (NameFree own others o) (init (noDirectory root)) es ↔
      (system pid).Steps (fun _ w e => tidy pid w e = true) [] (init (noDirectory root)) es := by
  have empty : Recorded pid (init (noDirectory root) : World ι).fs := fun _ => .inl rfl
  have first : NameFree own others o (init (noDirectory root) : World ι) :=
    fun _ => (starts_iff_clean empty unused).mpr rfl
  rw [(system pid).throughout_iff_steps [] reaches, and_iff_right first]
  refine (system pid).steps_congr (fun _ w => Recorded pid w.fs)
    (fun _ _ _ _ recorded _ _ h => recorded_step h recorded) ?_ empty
    ((system pid).steps_of_forall (fun _ _ _ => trivial) _ _ _) reaches
  intro past w e t recorded h
  have h' : step pid w e = some t := h
  simp only [tidy, h', Bool.or_eq_true, Bool.not_eq_true']
  constructor
  · intro free
    by_cases calm : quiet t = true
    · right
      rw [← fs_of_quiet h' calm]
      exact (starts_iff_clean (recorded_step h' recorded) unused).mp (free t h calm)
    · exact .inl (Bool.not_eq_true _ ▸ calm)
  · intro allowed u hu calm
    cases h.symm.trans hu
    rcases allowed with busy | ready
    · rw [busy] at calm
      cases calm
    · rw [← fs_of_quiet h' calm] at ready
      exact (starts_iff_clean (recorded_step h' recorded) unused).mpr ready

end History

/-! ## Runs of two processes -/

def pids (second : Bool) : Int32 := if second then 8 else 7

def nobodyElse : Int32 → Bool := fun _ => false

/-- One process takes so many steps. -/
def steps (second : Bool) (count : Nat) : List (Event Bool) :=
  List.replicate count (.step second nobodyElse true)

theorem pids_notReused : NotReused pids 9 nobodyElse := by
  intro second
  refine ⟨?_, ?_, rfl⟩ <;> cases second <;> decide

/-- The first process is killed before it has made its pidfile, the second one runs to its end. -/
theorem nameFree_of_two_runs :
    ∃ w, (system pids).run (init (noDirectory false)) (steps false 5 ++ .kill false :: steps true 15) =
        some w ∧ w.pc true = .exited ∧
      (system pids).Throughout (NameFree 9 nobodyElse true) (init (noDirectory false))
        (steps false 5 ++ .kill false :: steps true 15) := by
  have holds : ((system pids).run (init (noDirectory false))
      (steps false 5 ++ .kill false :: steps true 15)).map (fun w => decide (w.pc true = .exited)) =
        some true := by
    decide
  obtain ⟨w, reaches, ended⟩ := (system pids).exists_of_eval holds
  exact ⟨w, reaches, of_decide_eq_true ended,
    (nameFree_iff_tidy pids_notReused true false reaches).mpr (by decide)⟩

/-- Killed between the truncation of its pidfile and the write of its pid. -/
def killedAtWrite : List (Event Bool) := steps false 5 ++ [.kill false]

/-- Killed behind the bind of its socket. -/
def killedServing : List (Event Bool) := steps false 7 ++ [.kill false]

theorem not_nameFree {es : List (Event Bool)}
    (holds : ((system pids).run (init (noDirectory true)) es).map
      (fun w => quiet w && !clean w.fs) = some true) :
    ¬ (system pids).Throughout (NameFree 9 nobodyElse true) (init (noDirectory true)) es := by
  obtain ⟨w, reaches, final⟩ := (system pids).exists_of_eval holds
  simp only [Bool.and_eq_true, Bool.not_eq_true'] at final
  obtain ⟨calm, dirty⟩ := final
  have recorded : Recorded pids w.fs :=
    (system pids).invariant_reachable (fun _ _ _ recorded h => recorded_step h recorded)
      (fun _ => .inl rfl) reaches
  intro free
  have starts := free es [] w (List.append_nil es).symm reaches calm
  rw [starts_iff_clean recorded pids_notReused, dirty] at starts
  cases starts

/-- An empty pidfile and a socket that is left both stop the next run. -/
theorem killed_not_nameFree :
    ¬ (system pids).Throughout (NameFree 9 nobodyElse true) (init (noDirectory true))
        killedAtWrite ∧
      ¬ (system pids).Throughout (NameFree 9 nobodyElse true) (init (noDirectory true))
        killedServing :=
  ⟨not_nameFree (by decide), not_nameFree (by decide)⟩

end MiniKvm.Guarantees.DeadName
