import MiniKvm.Source.RunProcess

/-!
# Is there one live VM per name?

init_filesystem looks for a directory, a pidfile and a live pid, and creates its own in later calls. Two
processes that both find the name free both start, and so does one that looks while the other cleans up.
Where they keep out of these windows, the pidfile of the one that runs makes the other leave.
-/
namespace MiniKvm.Guarantees.OneLive
open Lib Source Source.VmFiles Source.RunProcess

/-! ## The property -/

/-- The directory, its pidfile with its content, and its socket are still there. -/
def Keeps (fs fs' : Fs) : Prop :=
  ∀ d, fs.dir = some d → ∃ d', fs'.dir = some d' ∧ d'.ino = d.ino ∧
    (∀ f, d.pidfile = some f → d'.pidfile = some f ∧ fs'.content f = fs.content f) ∧
    (d.sock = true → d'.sock = true)

/-- At most one of the two processes is alive and past init_filesystem. -/
def Exclusive (w : World Bool) : Prop := ¬ ((w.pc false).past = true ∧ (w.pc true).past = true)

/-- A step of one process leaves alone what is there while the other one is past init_filesystem. -/
def Spares (pid : Bool → Int32) (w : World Bool) (e : Event Bool) : Prop :=
  match e with
  | .kill _ => True
  | .step i _ _ => ∀ t, step pid w e = some t → (w.pc !i).past = true → Keeps w.fs t.fs

/-! ## The windows -/

/-- The process finds the name free: no directory, no pidfile, or a pid that nobody has. -/
def decides (kill : Int32 → Bool) (fs : Fs) : Pc → Bool
  | .statDir => fs.dir = none
  | .openPidfile fsFd => fs.openPidfile fsFd = none
  | .kill _ p => !kill p
  | _ => false

/-- From there to the truncation of the pidfile. -/
def beforeCreate : Pc → Bool
  | .mkdirat fsExists | .openDir fsExists => !fsExists
  | .create _ => true
  | _ => false

/-- From there to the write of its pid; and in the final rmrf, up to the end of the process. -/
def inWindow (pc : Pc) : Bool :=
  beforeCreate pc ||
    match pc with
    | .write _ | .opendir | .readdir _ | .remove _ | .leaving true => true
    | _ => false

/-- A pid of none of the two, which kill may find dead. -/
def stale (pid : Bool → Int32) (p : Int32) : Bool := p ≠ 0 && p ≠ pid false && p ≠ pid true

/-- The process has read such a pid and not tested it yet. -/
def holdsStale (pid : Bool → Int32) : Pc → Bool
  | .kill _ p => stale pid p
  | _ => false

/-- The process is about to read one. -/
def readsStale (pid : Bool → Int32) (fs : Fs) : Pc → Bool
  | .read _ file => stale pid (readInt 0 (fs.content file))
  | _ => false

/-- The process finds the name free only while the other one is in no window and holds no stale pid,
and it reads no stale pid between that of the other and its truncation. -/
def careful (pid : Bool → Int32) (w : World Bool) : Event Bool → Bool
  | .kill _ => true
  | .step i others _ =>
    (!decides (w.kill pid others) w.fs (w.pc i) ||
      !inWindow (w.pc !i) && !holdsStale pid (w.pc !i)) &&
    (!beforeCreate (w.pc !i) || !readsStale pid w.fs (w.pc i))

/-! ## The phases of a process -/

inductive Phase where
  | checking | deciding | running | cleaning | done
  deriving DecidableEq

def phase : Pc → Phase
  | .mkdirat false | .openDir false | .create _ | .write _ => .deciding
  | .bind | .serving => .running
  | .opendir | .readdir _ | .remove _ | .leaving true => .cleaning
  | .leaving false | .exited | .killed => .done
  | _ => .checking

/-- It has found the name free and is not at its end yet. -/
def Committed (pc : Pc) : Prop := phase pc = .deciding ∨ phase pc = .running ∨ phase pc = .cleaning

/-- It has removed nothing and can still decide. -/
def Untouching (pc : Pc) : Prop :=
  phase pc = .checking ∨ phase pc = .deciding ∨ phase pc = .running

def Holding (pc : Pc) : Prop := phase pc = .deciding ∨ phase pc = .running

/-- The places where a process relies on something about the directory. -/
def relies : Pc → Bool
  | .openPidfile _ | .read _ _ | .kill _ _ | .write _ | .bind | .serving => true
  | _ => false

theorem relies_of_phase {pc : Pc} (behind : phase pc = .cleaning ∨ phase pc = .done) :
    relies pc = false := by
  cases pc <;> simp_all [phase, relies]

theorem relies_of_running {pc : Pc} (runs : phase pc = .running) : relies pc = true := by
  unfold phase at runs
  split at runs <;> first | rfl | cases runs

theorem past_iff (pc : Pc) : pc.past = true ↔ phase pc = .running ∨ phase pc = .cleaning := by
  cases pc with
  | mkdirat e => cases e <;> simp [Pc.past, phase]
  | openDir e => cases e <;> simp [Pc.past, phase]
  | leaving e => cases e <;> simp [Pc.past, phase]
  | _ => simp [Pc.past, phase]

theorem alive_of_committed {pc : Pc} (committed : Committed pc) : pc.alive = true := by
  cases pc <;> simp_all [Committed, phase, Pc.alive]

theorem inWindow_iff (pc : Pc) :
    inWindow pc = true ↔ phase pc = .deciding ∨ phase pc = .cleaning := by
  cases pc with
  | mkdirat e => cases e <;> simp [inWindow, beforeCreate, phase]
  | openDir e => cases e <;> simp [inWindow, beforeCreate, phase]
  | leaving e => cases e <;> simp [inWindow, beforeCreate, phase]
  | _ => simp [inWindow, beforeCreate, phase]

/-! ## What holds of a process next to the other one -/

def HasPidfile (fs : Fs) (file : Nat) (content : List UInt8) : Prop :=
  ∃ d, fs.dir = some d ∧ d.pidfile = some file ∧ fs.content file = content

/-- Of the process at `me` with pid `own`, next to the one at `you`. -/
structure Half (pid : Bool → Int32) (fs : Fs) (own : Int32) (me you : Pc) : Prop where
  one : Committed me → ¬ Committed you
  empty : ∀ f, me = .write f → HasPidfile fs f []
  running : phase me = .running → ∃ f, HasPidfile fs f (intBytes own)
  opened : ∀ fd, me = .openPidfile fd → Untouching you → ∃ d, fs.dir = some d ∧ d.ino = fd
  reads : ∀ fd f, me = .read fd f → Untouching you →
    ∃ d, fs.dir = some d ∧ d.ino = fd ∧ d.pidfile = some f
  holds : Holding you → holdsStale pid me = false

/-- The directory and the name of the pidfile in it are still there. -/
def KeepsNames (fs fs' : Fs) : Prop :=
  ∀ d, fs.dir = some d → ∃ d', fs'.dir = some d' ∧ d'.ino = d.ino ∧
    ∀ f, d.pidfile = some f → d'.pidfile = some f

section Step

variable {pid : Bool → Int32} {fs fs' : Fs} {own : Int32} {me me' you : Pc}

theorem Keeps.of_dir (dir : fs'.dir = fs.dir) (content : fs'.content = fs.content) :
    Keeps fs fs' := by
  intro d found
  exact ⟨d, dir.trans found, rfl, fun f name => ⟨name, by rw [content]⟩, id⟩

theorem Keeps.mkdirat (fs : Fs) : Keeps fs fs.mkdirat := by
  intro d found
  rw [Fs.mkdirat_of_dir found]
  exact Keeps.of_dir rfl rfl d found

theorem Keeps.names (keeps : Keeps fs fs') : KeepsNames fs fs' := by
  intro d found
  obtain ⟨d', there, ino, file, -⟩ := keeps d found
  exact ⟨d', there, ino, fun f name => (file f name).1⟩

theorem Keeps.hasPidfile {f : Nat} {content : List UInt8} (keeps : Keeps fs fs')
    (has : HasPidfile fs f content) : HasPidfile fs' f content := by
  obtain ⟨d, found, name, bytes⟩ := has
  obtain ⟨d', there, -, file, -⟩ := keeps d found
  exact ⟨d', there, (file f name).1, (file f name).2.trans bytes⟩

/-- The process that does not move keeps its half. -/
theorem Half.stay (half : Half pid fs own you me) (one : Committed me' → ¬ Committed you)
    (calm : Untouching me' → Untouching me) (keeps : Committed you → Keeps fs fs')
    (names : Untouching me' → KeepsNames fs fs')
    (holds : Holding me' → Holding me ∨ holdsStale pid you = false) :
    Half pid fs' own you me' where
  one committed committed' := one committed' committed
  empty f at_write :=
    (keeps (.inl (by rw [at_write]; rfl))).hasPidfile (half.empty f at_write)
  running runs := by
    obtain ⟨f, has⟩ := half.running runs
    exact ⟨f, (keeps (.inr (.inl runs))).hasPidfile has⟩
  opened fd at_open untouching := by
    obtain ⟨d, found, ino⟩ := half.opened fd at_open (calm untouching)
    obtain ⟨d', there, same, -⟩ := names untouching d found
    exact ⟨d', there, same.trans ino⟩
  reads fd f at_read untouching := by
    obtain ⟨d, found, ino, name⟩ := half.reads fd f at_read (calm untouching)
    obtain ⟨d', there, same, file⟩ := names untouching d found
    exact ⟨d', there, same.trans ino, file f name⟩
  holds holding := (holds holding).elim half.holds id

/-- A process that relies on nothing. -/
theorem Half.plain (one : Committed me → ¬ Committed you) (plain : relies me = false) :
    Half pid fs own me you where
  one := one
  empty f at_write := by simp [at_write, relies] at plain
  running runs := by simp [relies_of_running runs] at plain
  opened fd at_open := by simp [at_open, relies] at plain
  reads fd f at_read := by simp [at_read, relies] at plain
  holds _ := by cases me <;> simp_all [holdsStale, relies]

/-- And that is not committed either. -/
theorem Half.checking (next : phase me = .checking ∨ phase me = .done) (plain : relies me = false) :
    Half pid fs own me you := by
  refine .plain (fun committed => ?_) plain
  rcases next with n | n <;> simp [Committed, n] at committed

/-! ## One step -/

/-- Before a step of process `i`, at `me`. -/
structure Before (pid : Bool → Int32) (env : Env) (i : Bool) (fs : Fs) (me you : Pc) : Prop where
  mine : Half pid fs (pid i) me you
  yours : Half pid fs (pid !i) you me
  zero : env.kill 0 = true
  own_alive : me.alive = true → env.kill (pid i) = true
  other_alive : you.alive = true → env.kill (pid !i) = true
  decided : decides env.kill fs me = true → inWindow you = false ∧ holdsStale pid you = false
  read : beforeCreate you = true → readsStale pid fs me = false

/-- Behind it. -/
structure After (pid : Bool → Int32) (i : Bool) (fs fs' : Fs) (me' you : Pc) : Prop where
  mine : Half pid fs' (pid i) me' you
  yours : Half pid fs' (pid !i) you me'
  spares : you.past = true → Keeps fs fs'

variable {env : Env} {i : Bool}

theorem committed_of_past (past : you.past = true) : Committed you := by
  rcases (past_iff you).mp past with running | cleaning
  · exact .inr (.inl running)
  · exact .inr (.inr cleaning)

/-- A step on which nothing is decided. -/
theorem Before.check (before : Before pid env i fs me you) (checking : phase me = .checking)
    (next : phase me' = .checking ∨ phase me' = .done) (keeps : Keeps fs fs')
    (mine : Half pid fs' (pid i) me' you) : After pid i fs fs' me' you where
  mine := mine
  yours := before.yours.stay
    (fun committed => by rcases next with n | n <;> simp [Committed, n] at committed)
    (fun _ => .inl checking) (fun _ => keeps) (fun _ => keeps.names)
    (fun holding => by rcases next with n | n <;> simp [Holding, n] at holding)
  spares _ := keeps

/-- Who finds the name free finds no process committed: the pidfile of one that runs is there, it is
opened and read whole, and its pid is alive. -/
theorem Before.alone (before : Before pid env i fs me you)
    (decides : decides env.kill fs me = true) : ¬ Committed you := by
  have window := (before.decided decides).1
  rw [← Bool.not_eq_true, inWindow_iff, not_or] at window
  rintro (deciding | running | cleaning)
  · exact window.1 deciding
  · obtain ⟨f, d, found, name, -⟩ := before.yours.running running
    cases me with
    | statDir => simp [OneLive.decides, found] at decides
    | openPidfile fd =>
      obtain ⟨d', same, ino⟩ := before.mine.opened fd rfl (.inr (.inr running))
      cases found.symm.trans same
      simp [OneLive.decides, Fs.openPidfile, found, ino, name] at decides
    | kill fd p =>
      have live : env.kill p = true := by
        have own := before.own_alive rfl
        have other := before.other_alive (alive_of_committed (.inr (.inl running)))
        have holds := before.mine.holds (.inr running)
        simp only [holdsStale, stale, ne_eq, Bool.and_eq_false_iff, decide_eq_false_iff_not,
          not_not] at holds
        cases i <;> rcases holds with (rfl | rfl) | rfl <;>
          first | exact before.zero | exact own | exact other
      simp [OneLive.decides, live] at decides
    | _ => simp [OneLive.decides] at decides
  · exact window.2 cleaning

/-- While the other one is committed, what is read is its pid, or nothing yet. -/
theorem Before.read_fresh {fsFd file : Nat} (before : Before pid env i fs (.read fsFd file) you)
    (holding : Holding you) :
    holdsStale pid (.kill fsFd (readInt 0 (fs.content file))) = false := by
  rcases holding with deciding | running
  · obtain ⟨d, found, -, name⟩ := before.mine.reads fsFd file rfl (.inr (.inl deciding))
    cases you with
    | write f =>
      obtain ⟨d', same, name', empty⟩ := before.yours.empty f rfl
      cases found.symm.trans same
      cases name.symm.trans name'
      simp [holdsStale, stale, empty, readInt_nil]
    | mkdirat fsExists =>
      cases fsExists with
      | false => exact before.read rfl
      | true => cases deciding
    | openDir fsExists =>
      cases fsExists with
      | false => exact before.read rfl
      | true => cases deciding
    | create fd => exact before.read rfl
    | leaving passed => cases passed <;> cases deciding
    | _ => cases deciding
  · obtain ⟨d, found, -, name⟩ := before.mine.reads fsFd file rfl (.inr (.inr running))
    obtain ⟨f, d', same, name', bytes⟩ := before.yours.running running
    cases found.symm.trans same
    cases name.symm.trans name'
    rw [bytes, readInt_intBytes]
    cases i <;> simp [holdsStale, stale]

/-- A step on which the name is found free. -/
theorem Before.decide (before : Before pid env i fs me you) (checking : phase me = .checking)
    (decides : decides env.kill fs me = true) (next : phase me' = .deciding)
    (write : ∀ f, me' ≠ .write f) : After pid i fs fs me' you where
  mine := .plain (fun _ => before.alone decides) (by cases me' <;> simp_all [phase, relies])
  yours := before.yours.stay (fun _ => before.alone decides) (fun _ => .inl checking)
    (fun committed => absurd committed (before.alone decides))
    (fun _ d found => ⟨d, found, rfl, fun _ => id⟩)
    (fun _ => .inr (before.decided decides).2)
  spares past := absurd (committed_of_past past) (before.alone decides)

/-- A step of a process that is committed. -/
theorem Before.go (before : Before pid env i fs me you) (committed : Committed me)
    (calm : Untouching me' → Untouching me) (names : Untouching me' → KeepsNames fs fs')
    (holding : Holding me' → Holding me) (mine : Half pid fs' (pid i) me' you) :
    After pid i fs fs' me' you where
  mine := mine
  yours := before.yours.stay (fun _ => before.mine.one committed) calm
    (fun other => absurd other (before.mine.one committed)) names (fun h => .inl (holding h))
  spares past := absurd (committed_of_past past) (before.mine.one committed)

theorem KeepsNames.createPidfile {fsFd f : Nat} (created : fs.createPidfile fsFd = some (fs', f)) :
    KeepsNames fs fs' ∧ HasPidfile fs' f [] := by
  obtain ⟨d, found, -, rfl, there, content⟩ := Fs.createPidfile_spec created
  refine ⟨fun d' same => ?_, ⟨_, there, rfl, by simp [content]⟩⟩
  cases found.symm.trans same
  exact ⟨_, there, rfl, fun f name => by simp [name]⟩

theorem Before.clean (before : Before pid env i fs me you) (committed : Committed me)
    (next : phase me' = .cleaning) : After pid i fs fs' me' you :=
  before.go committed (fun u => by simp [Untouching, next] at u)
    (fun u => by simp [Untouching, next] at u) (fun h => by simp [Holding, next] at h)
    (.plain (fun _ => before.mine.one committed) (relies_of_phase (.inl next)))

theorem Before.leave (before : Before pid env i fs me you) (next : phase me' = .done) :
    After pid i fs fs me' you where
  mine := .checking (.inr next) (relies_of_phase (.inr next))
  yours := before.yours.stay (fun c => by simp [Committed, next] at c)
    (fun u => by simp [Untouching, next] at u) (fun _ => .of_dir rfl rfl)
    (fun u => by simp [Untouching, next] at u) (fun h => by simp [Holding, next] at h)
  spares _ := .of_dir rfl rfl

end Step

/-- What one step preserves, by the place of the process that takes it. -/
theorem procStep_after {pid : Bool → Int32} {env : Env} {i : Bool} {fs fs' : Fs} {me me' you : Pc}
    (before : Before pid env i fs me you) (moved : procStep env (pid i) fs me = some (fs', me')) :
    After pid i fs fs' me' you := by
  cases me with
  | idle =>
    simp only [procStep, Option.some.injEq, Prod.mk.injEq] at moved
    obtain ⟨rfl, rfl⟩ := moved
    split
    · exact before.check rfl (.inl rfl) (.of_dir rfl rfl) (.checking (.inl rfl) rfl)
    · exact before.check rfl (.inl rfl) (.of_dir rfl rfl) (.checking (.inl rfl) rfl)
  | mkdirRoot =>
    cases moved
    exact before.check rfl (.inl rfl) (.of_dir rfl rfl) (.checking (.inl rfl) rfl)
  | statDir =>
    cases moved
    cases found : fs.dir with
    | none => exact before.decide rfl (by simp [decides, found]) rfl (by simp)
    | some d =>
      exact before.check rfl (.inl rfl) (.of_dir rfl rfl) (.checking (.inl rfl) rfl)
  | mkdirat fsExists =>
    cases moved
    cases fsExists with
    | false =>
      have one := before.mine.one (.inl rfl)
      exact before.go (.inl rfl) (fun _ => .inr (.inl rfl))
        (fun _ => (Keeps.mkdirat fs).names) (fun _ => .inl rfl) (.plain (fun _ => one) rfl)
    | true =>
      exact before.check rfl (.inl rfl) (.mkdirat fs) (.checking (.inl rfl) rfl)
  | openDir fsExists =>
    simp only [procStep] at moved
    split at moved
    · cases moved
      exact before.leave rfl
    · next d found =>
      cases moved
      cases fsExists with
      | false =>
        have one := before.mine.one (.inl rfl)
        exact before.go (.inl rfl) (fun _ => .inr (.inl rfl))
          (fun _ => (Keeps.of_dir rfl rfl).names) (fun _ => .inl rfl) (.plain (fun _ => one) rfl)
      | true =>
        refine before.check rfl (.inl rfl) (.of_dir rfl rfl)
          ⟨fun c => by simp [Committed, phase] at c, by simp, by simp [phase], ?_, by simp,
            fun _ => rfl⟩
        rintro fd ⟨⟩ -
        exact ⟨d, found, rfl⟩
  | openPidfile fsFd =>
    simp only [procStep] at moved
    split at moved
    · next absent =>
      cases moved
      exact before.decide rfl (by simp [decides, absent]) rfl (by simp)
    · next file opened =>
      cases moved
      refine before.check rfl (.inl rfl) (.of_dir rfl rfl)
        ⟨fun c => by simp [Committed, phase] at c, by simp, by simp [phase], by simp, ?_,
          fun _ => rfl⟩
      rintro fd f ⟨⟩ -
      exact Fs.openPidfile_spec opened
  | read fsFd file =>
    cases moved
    refine before.check rfl (.inl rfl) (.of_dir rfl rfl)
      ⟨fun c => by simp [Committed, phase] at c, by simp, by simp [phase], by simp, by simp, ?_⟩
    exact before.read_fresh
  | kill fsFd p =>
    simp only [procStep, Option.some.injEq, Prod.mk.injEq] at moved
    obtain ⟨rfl, rfl⟩ := moved
    cases alive : env.kill p with
    | true => exact before.leave rfl
    | false => exact before.decide rfl (by simp [decides, alive]) rfl (by simp)
  | create fsFd =>
    have one := before.mine.one (.inl rfl)
    simp only [procStep] at moved
    split at moved
    · cases moved
      exact before.leave rfl
    · next fs file created =>
      cases moved
      obtain ⟨names, empty⟩ := KeepsNames.createPidfile created
      refine before.go (.inl rfl) (fun _ => .inr (.inl rfl)) (fun _ => names) (fun _ => .inl rfl)
        ⟨fun _ => one, ?_, by simp [phase], by simp, by simp, fun _ => rfl⟩
      rintro f ⟨⟩
      exact empty
  | write file =>
    cases moved
    have one := before.mine.one (.inl rfl)
    obtain ⟨d, found, name, empty⟩ := before.mine.empty file rfl
    refine before.go (.inl rfl) (fun _ => .inr (.inl rfl))
      (fun _ d found => ⟨d, found, rfl, fun _ => id⟩) (fun _ => .inl rfl)
      ⟨fun _ => one, by simp, fun _ => ⟨file, d, found, name, ?_⟩, by simp, by simp, fun _ => rfl⟩
    simp [Fs.writePid, empty]
  | bind =>
    have one := before.mine.one (.inr (.inl rfl))
    simp only [procStep] at moved
    split at moved
    · cases moved
      exact before.clean (.inr (.inl rfl)) rfl
    · next bound =>
      cases moved
      obtain ⟨d, found, -, rfl⟩ := Fs.bind_spec bound
      obtain ⟨f, d', same, name, bytes⟩ := before.mine.running rfl
      cases found.symm.trans same
      refine before.go (.inr (.inl rfl)) (fun _ => .inr (.inr rfl)) ?_ (fun _ => .inr rfl)
        ⟨fun _ => one, by simp, fun _ => ⟨f, _, rfl, name, bytes⟩, by simp, by simp, fun _ => rfl⟩
      intro _ d' same
      cases found.symm.trans same
      exact ⟨_, rfl, rfl, fun _ => id⟩
  | serving =>
    cases moved
    exact before.clean (.inr (.inl rfl)) rfl
  | opendir =>
    simp only [procStep] at moved
    split at moved <;> cases moved <;> exact before.clean (.inr (.inr rfl)) rfl
  | readdir fd =>
    cases moved
    exact before.clean (.inr (.inr rfl)) rfl
  | remove entries =>
    cases entries with
    | nil =>
      cases moved
      exact before.clean (.inr (.inr rfl)) rfl
    | cons entry rest =>
      simp only [procStep] at moved
      split at moved <;> cases moved <;> exact before.clean (.inr (.inr rfl)) rfl
  | leaving passed =>
    cases moved
    exact before.leave rfl
  | exited => cases moved
  | killed => cases moved

/-! ## The two together -/

def Inv (pid : Bool → Int32) (w : World Bool) : Prop :=
  ∀ i, Half pid w.fs (pid i) (w.pc i) (w.pc !i)

theorem inv_init (pid : Bool → Int32) (fs : Fs) : Inv pid (init fs) :=
  fun _ => .checking (.inl rfl) rfl

theorem exclusive_of_inv {pid : Bool → Int32} {w : World Bool} (inv : Inv pid w) : Exclusive w := by
  rintro ⟨first, second⟩
  exact (inv false).one (committed_of_past first) (committed_of_past second)

variable {pid : Bool → Int32} {w t : World Bool} {e : Event Bool}

/-- Before a careful step everything is as `Before` has it. -/
theorem before_of_inv {i o : Bool} {others : Int32 → Bool} (inv : Inv pid w)
    (allowed : careful pid w (.step i others o) = true) :
    Before pid ⟨w.kill pid others, o⟩ i w.fs (w.pc i) (w.pc !i) := by
  have alive {j : Bool} (alive : (w.pc j).alive = true) : w.kill pid others (pid j) = true := by
    simp only [World.kill, Bool.or_eq_true, decide_eq_true_eq]
    exact .inl (.inr ⟨j, alive, rfl⟩)
  have other : Half pid w.fs (pid !i) (w.pc !i) (w.pc i) := by
    have half := inv !i
    rwa [Bool.not_not] at half
  simp only [careful, Bool.and_eq_true, Bool.or_eq_true, Bool.not_eq_true'] at allowed
  obtain ⟨decided, read⟩ := allowed
  refine ⟨inv i, other, by simp [World.kill], alive, alive, fun decides => ?_, fun early => ?_⟩
  · exact decided.resolve_left (by simp [decides])
  · exact read.resolve_left (by simp [early])

theorem inv_step (inv : Inv pid w) (allowed : careful pid w e = true)
    (h : step pid w e = some t) : Inv pid t ∧ Spares pid w e := by
  cases e with
  | kill i =>
    refine ⟨?_, trivial⟩
    simp only [step] at h
    split at h
    · cases h
      intro j
      by_cases same : j = i
      · subst same
        simp only [Function.update_self]
        exact .checking (.inr rfl) rfl
      · obtain rfl : (!j) = i := by cases i <;> cases j <;> simp_all
        have half := inv j
        simp only [Function.update_self, Function.update_of_ne same]
        exact half.stay (fun c => by simp [Committed, phase] at c)
          (fun u => by simp [Untouching, phase] at u) (fun _ => .of_dir rfl rfl)
          (fun u => by simp [Untouching, phase] at u) (fun c => by simp [Holding, phase] at c)
    · cases h
  | step i others o =>
    have before := before_of_inv inv allowed
    have moves : ∀ {t}, step pid w (.step i others o) = some t → ∃ fs' me',
        t = ⟨fs', Function.update w.pc i me'⟩ ∧ After pid i w.fs fs' me' (w.pc !i) := by
      intro t h
      obtain ⟨⟨fs', me'⟩, moved, rfl⟩ := Option.map_eq_some_iff.mp h
      exact ⟨fs', me', rfl, procStep_after before moved⟩
    refine ⟨?_, fun t h past => ?_⟩
    · obtain ⟨fs', me', rfl, after⟩ := moves h
      intro j
      by_cases same : j = i
      · subst same
        simpa using after.mine
      · obtain rfl : (!j) = i := by cases i <;> cases j <;> simp_all
        have yours := after.yours
        rw [Bool.not_not] at yours
        simpa [Function.update_of_ne same] using yours
    · obtain ⟨fs', me', rfl, after⟩ := moves h
      exact after.spares past

/-- From any directory, in every run of two processes whose steps are all careful, at most one is past
init_filesystem at any time, and none removes or truncates anything while the other one is. -/
theorem one_live_of_careful (pid : Bool → Int32) (fs : Fs) {es : List (Event Bool)}
    {w : World Bool} (reaches : (system pid).run (init fs) es = some w)
    (allowed : (system pid).Steps (fun _ w e => careful pid w e = true) [] (init fs) es) :
    (system pid).Throughout Exclusive (init fs) es ∧
      (system pid).Steps (fun _ w e => Spares pid w e) [] (init fs) es := by
  have kept (_ : List Empty) (w : World Bool) (e : Event Bool) (t : World Bool) (inv : Inv pid w)
      (ok : careful pid w e = true) (h : (system pid).step w e = some t) : Inv pid t :=
    (inv_step inv ok h).1
  have start := inv_init pid fs
  refine ⟨((system pid).throughout_iff_steps [] reaches).mpr
    ⟨exclusive_of_inv start, ?_⟩, ?_⟩
  · refine (system pid).steps_of_allowed (Inv pid) kept ?_ start allowed reaches
    intro past w e t inv ok h t' h'
    exact exclusive_of_inv (inv_step inv ok h').1
  · exact (system pid).steps_of_allowed (Inv pid) kept
      (fun past w e t inv ok h => (inv_step inv ok h).2) start allowed reaches

/-! ## Two runs -/

def noDirectory : Fs := ⟨true, none, fun _ => [], 0⟩

def pids (i : Bool) : Int32 := if i then 8 else 7

/-- One process takes so many steps. -/
def steps (i : Bool) (count : Nat) : List (Event Bool) :=
  List.replicate count (.step i (fun _ => false) true)

/-- The second process comes when the first one serves, and leaves when it has found its pid alive. -/
theorem one_live_of_second_later :
    ∃ w, (system pids).run (init noDirectory) (steps false 7 ++ steps true 7) = some w ∧
      w.pc false = .serving ∧ w.pc true = .leaving false ∧
      (system pids).Throughout Exclusive (init noDirectory) (steps false 7 ++ steps true 7) ∧
      (system pids).Steps (fun _ w e => Spares pids w e) [] (init noDirectory)
        (steps false 7 ++ steps true 7) := by
  have holds : ((system pids).run (init noDirectory) (steps false 7 ++ steps true 7)).map
      (fun w => decide (w.pc false = .serving ∧ w.pc true = .leaving false)) = some true := by
    decide
  obtain ⟨w, reaches, ends⟩ := (system pids).exists_of_eval holds
  obtain ⟨serving, refused⟩ := of_decide_eq_true ends
  exact ⟨w, reaches, serving, refused,
    one_live_of_careful pids noDirectory reaches (by decide)⟩

/-- Both find no directory before one of them has made it. -/
def race : List (Event Bool) := steps false 2 ++ steps true 2 ++ steps false 4 ++ steps true 4

/-- Both are past init_filesystem then; the one whose bind is refused removes the directory, with the
pidfile and the socket of the one that serves. -/
theorem race_not_one_live :
    (∃ w, (system pids).run (init noDirectory) race = some w ∧
      ¬ (system pids).Throughout Exclusive (init noDirectory) race) ∧
    ∃ w, (system pids).run (init noDirectory) (race ++ steps true 1 ++ steps false 6) = some w ∧
      w.pc true = .serving ∧ w.fs.dir = none := by
  constructor
  · have holds : ((system pids).run (init noDirectory) race).map
        (fun w => (w.pc false).past && (w.pc true).past) = some true := by
      decide
    obtain ⟨w, reaches, both⟩ := (system pids).exists_of_eval holds
    refine ⟨w, reaches, fun exclusive => ?_⟩
    exact exclusive race [] w (List.append_nil race).symm reaches
      (by simpa only [Bool.and_eq_true] using both)
  · have holds : ((system pids).run (init noDirectory)
        (race ++ steps true 1 ++ steps false 6)).map
        (fun w => decide (w.pc true = .serving ∧ w.fs.dir = none)) = some true := by
      decide
    obtain ⟨w, reaches, ends⟩ := (system pids).exists_of_eval holds
    exact ⟨w, reaches, of_decide_eq_true ends⟩

end MiniKvm.Guarantees.OneLive
