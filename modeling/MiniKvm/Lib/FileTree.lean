import Mathlib

/-!
# File trees and paths

A file tree by the locations of its entries, the resolution of paths in it, with links, and the
operations on it that nftw with remove needs. What an operation can do to a tree is said once, by
`Shrunk`: entries below some location are gone, and nothing else has changed.
-/
namespace MiniKvm.Lib

/-- A component of a path: `.`, `..`, or a name. -/
inductive Step (ν : Type*) where
  | here | up
  | down (n : ν)
  deriving DecidableEq, Repr

/-- What is at a location. -/
inductive Entry (ν : Type*) where
  | dir
  | file (content : List UInt8)
  | sock
  | link (absolute : Bool) (target : List (Step ν))
  deriving DecidableEq, Repr

/-- The entries of a tree by their locations, of which the first counts. The top needs none. -/
structure FileTree (ν : Type*) where
  entries : List (List ν × Entry ν)

namespace FileTree

variable {ν : Type*} [DecidableEq ν]

def lookup (t : FileTree ν) (p : List ν) : Option (Entry ν) :=
  if p = [] then some .dir else (t.entries.find? fun e => e.1 = p).map Prod.snd

/-- The names in a directory. -/
def children (t : FileTree ν) (p : List ν) : List ν :=
  (t.entries.filterMap fun e => if e.1.dropLast = p then e.1.getLast? else none).dedup

def erase (t : FileTree ν) (p : List ν) : FileTree ν := ⟨t.entries.filter fun e => e.1 ≠ p⟩

def put (t : FileTree ν) (p : List ν) (e : Entry ν) : FileTree ν := ⟨(p, e) :: (t.erase p).entries⟩

theorem lookup_erase_of_ne {t : FileTree ν} {p q : List ν} (apart : p ≠ q) :
    (t.erase q).lookup p = t.lookup p := by
  unfold lookup erase
  rw [List.find?_filter]
  congr 3
  funext e
  by_cases at_p : e.1 = p
  · simp [at_p, apart]
  · simp [at_p]

theorem lookup_erase_self {t : FileTree ν} {p : List ν} (below : p ≠ []) :
    (t.erase p).lookup p = none := by
  rw [lookup, if_neg below, erase, Option.map_eq_none_iff, List.find?_eq_none]
  intro e member
  simpa using (List.mem_filter.mp member).2

theorem lookup_of_lookup_erase {t : FileTree ν} {p q : List ν} {e : Entry ν}
    (found : (t.erase q).lookup p = some e) : t.lookup p = some e := by
  by_cases same : p = q
  · subst same
    by_cases top : p = []
    · rwa [lookup, if_pos top] at found ⊢
    · rw [lookup_erase_self top] at found
      cases found
  · rwa [lookup_erase_of_ne same] at found

/-! ## Paths -/

/-- How far a path leads without a link: to a location, or to a link that stands for the steps that
are then to do. -/
inductive Reached (ν : Type*) where
  | fails
  | at (p : List ν)
  | link (start : List ν) (steps : List (Step ν))

/-- From location `p`; each step needs a directory to start from. The last one may lead to where
nothing is, and it leads to a link itself where `deref` is off. -/
def follow (t : FileTree ν) (deref : Bool) : List ν → List (Step ν) → Reached ν
  | p, [] => .at p
  | p, step :: rest =>
    if t.lookup p ≠ some .dir then .fails
    else
      match step with
      | .here => follow t deref p rest
      | .up => follow t deref p.dropLast rest
      | .down n =>
        match t.lookup (p ++ [n]) with
        | some (.link absolute target) =>
          if rest = [] ∧ ¬ deref then .at (p ++ [n])
          else .link (if absolute then [] else p) (target ++ rest)
        | _ => follow t deref (p ++ [n]) rest

/-- With so many links at most. -/
def resolveIn (t : FileTree ν) (deref : Bool) : Nat → List ν → List (Step ν) → Option (List ν)
  | 0, p, steps =>
    match t.follow deref p steps with
    | .at q => some q
    | _ => none
  | links + 1, p, steps =>
    match t.follow deref p steps with
    | .at q => some q
    | .link start more => resolveIn t deref links start more
    | .fails => none

/-- The limit of the kernel. -/
def maxLinks : Nat := 40

def resolve (t : FileTree ν) (deref : Bool) (start : List ν) (steps : List (Step ν)) :
    Option (List ν) :=
  t.resolveIn deref maxLinks start steps

/-! ### Where a path leads -/

theorem resolveIn_at {t : FileTree ν} {deref : Bool} {p q : List ν} {steps : List (Step ν)}
    (links : Nat) (reached : t.follow deref p steps = .at q) :
    t.resolveIn deref links p steps = some q := by
  cases links <;> simp [resolveIn, reached]

/-- A path that leads to `q` does so without a link, or the steps a link stands for lead there. -/
@[elab_as_elim]
theorem resolveIn_induction {t : FileTree ν} {deref : Bool} {q : List ν}
    {motive : Nat → List ν → List (Step ν) → Prop}
    (reaches : ∀ links p steps, t.follow deref p steps = .at q → motive links p steps)
    (goesOn : ∀ links p steps start more, t.follow deref p steps = .link start more →
      motive links start more → motive (links + 1) p steps)
    {links : Nat} {p : List ν} {steps : List (Step ν)}
    (led : t.resolveIn deref links p steps = some q) : motive links p steps := by
  induction links generalizing p steps with
  | zero =>
    unfold resolveIn at led
    split at led
    · next reached =>
      cases led
      exact reaches 0 p steps reached
    · cases led
  | succ links ih =>
    unfold resolveIn at led
    split at led
    · next reached =>
      cases led
      exact reaches (links + 1) p steps reached
    · next start more reached => exact goesOn links p steps start more reached (ih led)
    · cases led

/-! ## System calls -/

def stat (t : FileTree ν) (start : List ν) (path : List (Step ν)) : Option (Entry ν) :=
  (t.resolve true start path).bind t.lookup

/-- open with O_DIRECTORY: the location of the directory. -/
def openDir (t : FileTree ν) (start : List ν) (path : List (Step ν)) : Option (List ν) :=
  (t.resolve true start path).bind fun p => if t.lookup p = some .dir then some p else none

/-- open for reading, and the content; a directory can be opened, but not read, a socket not even
opened. -/
def openRead (t : FileTree ν) (start : List ν) (path : List (Step ν)) : Option (List UInt8) :=
  match t.stat start path with
  | some (.file content) => some content
  | some .dir => some []
  | _ => none

/-- A new entry; none where there is one already, be it a link. -/
def make (t : FileTree ν) (e : Entry ν) (start : List ν) (path : List (Step ν)) :
    Option (FileTree ν) :=
  (t.resolve false start path).bind fun p => if t.lookup p = none then some (t.put p e) else none

/-- open with O_CREAT, O_TRUNC and O_WRONLY, and what is then written. -/
def writeFile (t : FileTree ν) (content : List UInt8) (start : List ν) (path : List (Step ν)) :
    Option (FileTree ν) :=
  (t.resolve true start path).bind fun p =>
    match t.lookup p with
    | none | some (.file _) => some (t.put p (.file content))
    | _ => none

/-! ## What removals do -/

/-- `t` has come from `before` by removals below `base`. -/
structure Shrunk (base : List ν) (before t : FileTree ν) : Prop where
  sub : ∀ {p e}, t.lookup p = some e → before.lookup p = some e
  frame : ∀ {p}, ¬ base <+: p → t.lookup p = before.lookup p

theorem Shrunk.refl (base : List ν) (t : FileTree ν) : Shrunk base t t :=
  ⟨id, fun _ => rfl⟩

theorem Shrunk.erase {base q : List ν} {before t : FileTree ν} (shrunk : Shrunk base before t)
    (below : base <+: q) : Shrunk base before (t.erase q) where
  sub found := shrunk.sub (lookup_of_lookup_erase found)
  frame {p} outside := by
    have apart : p ≠ q := fun same => outside (same ▸ below)
    rw [lookup_erase_of_ne apart, shrunk.frame outside]

/-- Where a path still leads in the smaller tree, it led before. -/
def Reached.Sub : Reached ν → Reached ν → Prop
  | .fails, _ => True
  | r, r' => r = r'

theorem follow_sub {before t : FileTree ν}
    (sub : ∀ {p e}, t.lookup p = some e → before.lookup p = some e) (p : List ν)
    (steps : List (Step ν)) : (t.follow false p steps).Sub (before.follow false p steps) := by
  induction steps generalizing p with
  | nil => exact rfl
  | cons step rest ih =>
    by_cases isDir : t.lookup p = some .dir
    · simp only [follow, isDir, sub isDir, ne_eq, not_true_eq_false, if_false]
      cases step with
      | here => exact ih p
      | up => exact ih p.dropLast
      | down n =>
        simp only
        split
        · next absolute target found =>
          rw [sub found]
          simp only
          split <;> exact rfl
        · next other =>
          split
          · next absolute target found =>
            -- A link that is gone is one that is not there, unless more steps are to come.
            cases rest with
            | nil => exact rfl
            | cons step rest =>
              have gone : t.lookup (p ++ [n]) ≠ some .dir := fun isDir => by
                rw [sub isDir] at found
                cases found
              simp only [follow, ne_eq, gone, not_false_eq_true, if_true]
              exact trivial
          · exact ih (p ++ [n])
    · simp only [follow, ne_eq, isDir, not_false_eq_true, if_true]
      exact trivial

theorem resolveIn_sub {before t : FileTree ν}
    (sub : ∀ {p e}, t.lookup p = some e → before.lookup p = some e) {links : Nat} {p q : List ν}
    {steps : List (Step ν)} (led : t.resolveIn false links p steps = some q) :
    before.resolveIn false links p steps = some q := by
  refine resolveIn_induction ?_ ?_ led
  · intro links p steps reached
    have same := follow_sub sub p steps
    rw [reached] at same
    exact resolveIn_at links same.symm
  · intro links p steps start more reached leads
    have same := follow_sub sub p steps
    rw [reached] at same
    rw [resolveIn, ← same]
    exact leads

/-! ## One step more -/

/-- The last name of a path is looked up where the path before it leads, links included. -/
theorem follow_append_down (t : FileTree ν) (p : List ν) (steps : List (Step ν)) (n : ν) :
    t.follow false p (steps ++ [.down n]) =
      match t.follow true p steps with
      | .fails => .fails
      | .at q => if t.lookup q = some .dir then .at (q ++ [n]) else .fails
      | .link start more => .link start (more ++ [.down n]) := by
  induction steps generalizing p with
  | nil =>
    by_cases isDir : t.lookup p = some .dir
    · simp only [List.nil_append, follow, isDir, ne_eq, not_true_eq_false, if_false, if_true]
      split <;> rfl
    · simp [follow, isDir]
  | cons step rest ih =>
    by_cases isDir : t.lookup p = some .dir
    · simp only [List.cons_append, follow, isDir, ne_eq, not_true_eq_false, if_false]
      cases step with
      | here => exact ih p
      | up => exact ih p.dropLast
      | down m =>
        simp only
        split
        · next absolute target found => simp
        · exact ih (p ++ [m])
    · simp [follow, isDir]

theorem resolveIn_append_down (t : FileTree ν) (links : Nat) (p : List ν)
    (steps : List (Step ν)) (n : ν) :
    t.resolveIn false links p (steps ++ [.down n]) =
      match t.resolveIn true links p steps with
      | none => none
      | some q => if t.lookup q = some .dir then some (q ++ [n]) else none := by
  induction links generalizing p steps with
  | zero =>
    simp only [resolveIn, follow_append_down]
    cases t.follow true p steps with
    | «at» q => by_cases isDir : t.lookup q = some .dir <;> simp [isDir]
    | _ => rfl
  | succ links ih =>
    simp only [resolveIn, follow_append_down]
    cases t.follow true p steps with
    | fails => rfl
    | «at» q => by_cases isDir : t.lookup q = some .dir <;> simp [isDir]
    | link start more => exact ih start more

/-- What is reached is no link: none has been left out at the end. -/
theorem follow_deref (t : FileTree ν) (p : List ν) (steps : List (Step ν))
    (noLink : ∀ {q absolute target}, t.follow false p steps = .at q →
      t.lookup q ≠ some (.link absolute target)) :
    t.follow true p steps = t.follow false p steps := by
  induction steps generalizing p with
  | nil => rfl
  | cons step rest ih =>
    by_cases here : t.lookup p = some .dir
    · simp only [follow, here, ne_eq, not_true_eq_false, if_false] at noLink ⊢
      cases step with
      | here => exact ih p noLink
      | up => exact ih p.dropLast noLink
      | down n =>
        simp only at noLink ⊢
        split
        · next absolute target found =>
          rw [found] at noLink
          by_cases last : rest = []
          · exact absurd found (noLink (q := p ++ [n]) (by simp [last]))
          · simp [last]
        · next other =>
          refine ih (p ++ [n]) fun {q absolute target} led => noLink ?_
          split
          · next absolute target found => exact absurd found (other absolute target)
          · exact led
    · simp [follow, here]

theorem resolveIn_deref {t : FileTree ν} {links : Nat} {p q : List ν} {steps : List (Step ν)}
    (led : t.resolveIn false links p steps = some q)
    (noLink : ∀ {absolute target}, t.lookup q ≠ some (.link absolute target)) :
    t.resolveIn true links p steps = some q := by
  refine resolveIn_induction ?_ ?_ led
  · intro links p steps reached
    have same := follow_deref t p steps fun {r absolute target} led => by
      rw [reached] at led
      cases led
      exact noLink
    exact resolveIn_at links (same.trans reached)
  · intro links p steps start more reached leads
    have same := follow_deref t p steps fun {r absolute target} led => by
      rw [reached] at led
      cases led
    rw [resolveIn, same, reached]
    exact leads

theorem resolve_append_down (t : FileTree ν) (start : List ν) (path : List (Step ν)) (n : ν) :
    t.resolve false start (path ++ [.down n]) =
      match t.resolve true start path with
      | none => none
      | some q => if t.lookup q = some .dir then some (q ++ [n]) else none :=
  resolveIn_append_down t maxLinks start path n

theorem resolve_append_down_of_dir {t : FileTree ν} {start p : List ν} {path : List (Step ν)}
    (leads : t.resolve false start path = some p) (isDir : t.lookup p = some .dir) (n : ν) :
    t.resolve false start (path ++ [.down n]) = some (p ++ [n]) := by
  have leads_deref : t.resolve true start path = some p := resolveIn_deref leads (by simp [isDir])
  rw [resolve_append_down, leads_deref]
  exact if_pos isDir

theorem resolve_nil (t : FileTree ν) (deref : Bool) (p : List ν) : t.resolve deref p [] = some p :=
  rfl

/-- A name in a directory, that of no link. -/
theorem resolve_down {t : FileTree ν} {start p : List ν} {path : List (Step ν)} {n : ν}
    (leads : t.resolve true start path = some p) (isDir : t.lookup p = some .dir)
    (noLink : ∀ {absolute target}, t.lookup (p ++ [n]) ≠ some (.link absolute target)) (deref : Bool) :
    t.resolve deref start (path ++ [.down n]) = some (p ++ [n]) := by
  have leads_below : t.resolve false start (path ++ [.down n]) = some (p ++ [n]) := by
    rw [resolve_append_down, leads]
    exact if_pos isDir
  cases deref with
  | false => exact leads_below
  | true => exact resolveIn_deref leads_below noLink

theorem lookup_put_self {t : FileTree ν} {p : List ν} (below : p ≠ []) (e : Entry ν) :
    (t.put p e).lookup p = some e := by
  simp [lookup, put, below]

theorem lookup_put_of_ne {t : FileTree ν} {p q : List ν} (apart : q ≠ p) (e : Entry ν) :
    (t.put p e).lookup q = t.lookup q := by
  have behind : (t.put p e).lookup q = (t.erase p).lookup q := by
    simp [lookup, put, apart.symm]
  rw [behind, lookup_erase_of_ne apart]

/-! ## nftw with remove -/

/-- `remove(path)`: a directory must be empty, and neither `.` nor `..` can be removed. What the
file system refuses besides is `busy`. -/
def remove (busy : List ν → Bool) (t : FileTree ν) (start : List ν) (path : List (Step ν)) :
    Option (FileTree ν) :=
  match path.getLast? with
  | some (.down _) =>
    match t.resolve false start path with
    | none => none
    | some p =>
      match t.lookup p with
      | none => none
      | some e =>
        if busy p ∨ e = .dir ∧ t.children p ≠ [] then none else some (t.erase p)
  | _ => none

/-- The tree and whether all has gone well so far; after a failure nothing more is done. -/
def visitAll (visit : ν → FileTree ν → FileTree ν × Bool) (names : List ν) (t : FileTree ν) :
    FileTree ν × Bool :=
  names.foldl (fun s n => if s.2 then visit n s.1 else s) (t, true)

/-- nftw with FTW_DEPTH and FTW_PHYS, and remove as its callback, for the entry at location `p` with
this path. -/
def visit (busy : List ν → Bool) (start : List ν) :
    Nat → List (Step ν) → List ν → FileTree ν → FileTree ν × Bool
  | 0, _, _, t => (t, false)
  | depth + 1, path, p, t =>
    let below :=
      if t.lookup p = some .dir then
        visitAll (fun n => visit busy start depth (path ++ [.down n]) (p ++ [n])) (t.children p) t
      else (t, true)
    if below.2 then
      match remove busy below.1 start path with
      | none => (below.1, false)
      | some t => (t, true)
    else below

/-- What it leaves of the tree; no entry is deeper than there are entries. -/
def nftwRemove (busy : List ν → Bool) (t : FileTree ν) (start : List ν) (path : List (Step ν)) :
    FileTree ν :=
  match t.resolve false start path with
  | none => t
  | some p => if t.lookup p = none then t else (visit busy start (t.entries.length + 2) path p t).1

section Shrunk

variable {busy : List ν → Bool} {base start p : List ν} {before t : FileTree ν}
  {path : List (Step ν)}

theorem Shrunk.remove {t' : FileTree ν} (shrunk : Shrunk base before t)
    (leads : before.resolve false start path = some p) (below : base <+: p)
    (removed : t.remove busy start path = some t') : Shrunk base before t' := by
  unfold FileTree.remove at removed
  split at removed
  · split at removed
    · cases removed
    · next q led =>
      -- The path leads where it led before.
      have same := resolveIn_sub shrunk.sub led
      rw [resolve] at leads
      rw [leads] at same
      cases same
      split at removed
      · cases removed
      · split at removed
        · cases removed
        · cases removed
          exact shrunk.erase below
  · cases removed

theorem Shrunk.visitAll {step : ν → FileTree ν → FileTree ν × Bool}
    (each : ∀ {n t}, Shrunk base before t → Shrunk base before (step n t).1)
    (shrunk : Shrunk base before t) (names : List ν) :
    Shrunk base before (FileTree.visitAll step names t).1 := by
  unfold FileTree.visitAll
  suffices ∀ s : FileTree ν × Bool, Shrunk base before s.1 →
      Shrunk base before (names.foldl (fun s n => if s.2 then step n s.1 else s) s).1 from
    this (t, true) shrunk
  induction names with
  | nil => exact fun _ shrunk => shrunk
  | cons n names ih =>
    intro s shrunk
    rw [List.foldl_cons]
    refine ih _ ?_
    split
    · exact each shrunk
    · exact shrunk

theorem Shrunk.visit {depth : Nat} (shrunk : Shrunk base before t)
    (leads : before.resolve false start path = some p) (below : base <+: p) :
    Shrunk base before (FileTree.visit busy start depth path p t).1 := by
  induction depth generalizing path p t with
  | zero => exact shrunk
  | succ depth ih =>
    have inside : Shrunk base before (if t.lookup p = some .dir then
        FileTree.visitAll
          (fun n => FileTree.visit busy start depth (path ++ [.down n]) (p ++ [n]))
          (t.children p) t
        else (t, true)).1 := by
      split
      · next isDir =>
        refine Shrunk.visitAll (fun {n _} smaller => ?_) shrunk _
        exact ih smaller (resolve_append_down_of_dir leads (shrunk.sub isDir) n)
          (below.trans (List.prefix_append p [n]))
      · exact shrunk
    simp only [FileTree.visit]
    generalize (if t.lookup p = some .dir then _ else (t, true)) = s at inside ⊢
    split
    · split
      · exact inside
      · next removed => exact inside.remove leads below removed
    · exact inside

/-- Only what is below the location of its path can be gone. -/
theorem shrunk_nftwRemove (leads : t.resolve false start path = some base) :
    Shrunk base t (t.nftwRemove busy start path) := by
  unfold nftwRemove
  rw [leads]
  simp only
  split
  · exact .refl base t
  · exact (Shrunk.refl base t).visit leads (List.prefix_refl base)

end Shrunk

end FileTree

end MiniKvm.Lib
