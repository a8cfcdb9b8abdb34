import MiniKvm.Source.VmPaths

/-!
# Does a VM delete its own directory only?

The final rmrf takes the name as it is: what goes is the tree that the path leads to, whatever that is.
Where it leads is a matter of the last component of the name, and of where the path before it ends.
-/
namespace MiniKvm.Guarantees.OwnDirectory
open Lib Source Source.VmPaths

/-- At the rmrf of a VM with this name: its path leads to something directly in the root directory,
and whatever fails, nothing changes but that and what is below it. -/
def DeletesOwn (name : Name) (t : FileTree Name) : Prop :=
  ∃ path root d, rmrfPath name = some path ∧ t.resolve true [] (steps rootPath) = some root ∧
    t.resolve false [] (steps path) = some (root ++ [d]) ∧
    ∀ busy p, ¬ root ++ [d] <+: p → (rmrf busy path t).lookup p = t.lookup p

/-- The name is not empty; before a last component that is a name, its path leads to the root
directory, and with `.` or `..` at the end, to something in it. -/
def OneBelow (name : Name) (t : FileTree Name) : Prop :=
  name ≠ [] ∧ ∃ root, t.resolve true [] (steps rootPath) = some root ∧
    match (steps (fsPath name)).getLast? with
    | some (.down _) =>
      t.resolve true [] (steps (fsPath name)).dropLast = some root ∧ t.lookup root = some .dir
    | _ => ∃ d, t.resolve false [] (steps (fsPath name)) = some (root ++ [d])

/-! ## Paths -/

/-- A name of one component is looked up in the root directory. -/
theorem oneBelow_of_plain {name : Name} {t : FileTree Name} {root : List Name} (plain : Plain name)
    (leads : t.resolve true [] (steps rootPath) = some root)
    (isDir : t.lookup root = some .dir) : OneBelow name t := by
  refine ⟨plain.nonempty, root, leads, ?_⟩
  rw [steps_fsPath, steps_of_plain plain, List.getLast?_concat, List.dropLast_concat]
  exact ⟨leads, isDir⟩

/-! ## The deletion -/

theorem miniKvmRun_path {kill : Int32 → Bool} {self : Int32} {name : Name} {t : FileTree Name}
    {final : AtRmrf} (reached : miniKvmRun kill self (some name) t = some final) :
    final.path = rmrfPath name := by
  unfold miniKvmRun at reached
  cases name with
  | nil =>
    cases reached
    rfl
  | cons c rest =>
    simp only at reached
    split at reached
    · cases reached
    · cases reached
      rfl

theorem leads_one_below_iff {name : Name} {t : FileTree Name} {root : List Name} :
    (∃ d, t.resolve false [] (steps (fsPath name)) = some (root ++ [d])) ↔
      match (steps (fsPath name)).getLast? with
      | some (.down _) =>
        t.resolve true [] (steps (fsPath name)).dropLast = some root ∧ t.lookup root = some .dir
      | _ => ∃ d, t.resolve false [] (steps (fsPath name)) = some (root ++ [d]) := by
  split
  · next n last =>
    obtain ⟨front, split⟩ := List.getLast?_eq_some_iff.mp last
    rw [split, List.dropLast_concat, FileTree.resolve_append_down]
    cases led : t.resolve true [] front with
    | none => simp
    | some q =>
      by_cases isDir : t.lookup q = some .dir
      · simp only [isDir, if_true, Option.some.injEq]
        constructor
        · rintro ⟨d, same⟩
          obtain ⟨rfl, -⟩ := List.append_inj' same rfl
          exact ⟨rfl, isDir⟩
        · rintro ⟨rfl, -⟩
          exact ⟨n, rfl⟩
      · simp only [isDir, if_false]
        constructor
        · rintro ⟨d, same⟩
          cases same
        · rintro ⟨same, dir⟩
          cases same
          exact absurd dir isDir
  · rfl

/-- The rmrf of a VM deletes its own directory only exactly when the name leads one below the root
directory. -/
theorem deletesOwn_iff_oneBelow (name : Name) (t : FileTree Name) :
    DeletesOwn name t ↔ OneBelow name t := by
  cases name with
  | nil =>
    constructor
    · rintro ⟨path, root, d, none, -⟩
      cases none
    · rintro ⟨nonempty, -⟩
      exact absurd rfl nonempty
  | cons c rest =>
    constructor
    · rintro ⟨path, root, d, is_path, leads, leads_below, -⟩
      cases is_path
      exact ⟨List.cons_ne_nil c rest, root, leads, leads_one_below_iff.mp ⟨d, leads_below⟩⟩
    · rintro ⟨-, root, leads, below⟩
      obtain ⟨d, leads_below⟩ := leads_one_below_iff.mpr below
      refine ⟨_, root, d, rfl, leads, leads_below, ?_⟩
      intro busy p outside
      exact (FileTree.shrunk_nftwRemove leads_below).frame outside

def tmp : Name := ['t', 'm', 'p']

def miniKvm : Name := ['m', 'i', 'n', 'i', '_', 'k', 'v', 'm']

/-- Another VM has its directory. -/
def oneVm : FileTree Name :=
  ⟨[([tmp], .dir), ([tmp, miniKvm], .dir), ([tmp, miniKvm, ['a']], .dir)]⟩

/-- With an empty name the path is NULL. A VM of the name `.` starts, and its rmrf deletes the directory
of the VM `a`. -/
theorem here_not_deletesOwn :
    (miniKvmRun (fun _ => false) 7 (some []) oneVm = some ⟨none, oneVm⟩ ∧ ¬ DeletesOwn [] oneVm) ∧
      ∃ final, miniKvmRun (fun _ => false) 7 (some ['.']) oneVm = some final ∧
        ¬ DeletesOwn ['.'] final.tree ∧
        final.tree.lookup [tmp, miniKvm, ['a']] = some .dir ∧
        (rmrf (fun _ => false) (fsPath ['.']) final.tree).lookup [tmp, miniKvm, ['a']] = none := by
  refine ⟨⟨rfl, ?_⟩, _, rfl, ?_, by decide, by decide⟩
  · rintro ⟨path, root, d, no_path, -⟩
    cases no_path
  · rintro ⟨path, root, d, is_path, leads, leads_here, -⟩
    cases is_path
    -- The path leads to the root directory itself.
    have same_root := Option.some.inj (leads.symm.trans (by decide : _ = some [tmp, miniKvm]))
    have same_here :=
      Option.some.inj (leads_here.symm.trans (by decide : _ = some [tmp, miniKvm]))
    rw [same_root] at same_here
    exact absurd same_here (by simp)

end MiniKvm.Guarantees.OwnDirectory
