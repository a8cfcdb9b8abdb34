import Mathlib

/-!
# Properties of the entries of a history

A history grows at its end. What is said of an entry and of all that came before it is settled when
the entry is added, so an invariant of the form `AtEvery` is kept by one lemma.
-/
namespace MiniKvm.Lib.Histories

variable {α β : Type*}

/-- Every entry is related to the entries before it. -/
def AtEvery (P : List α → α → Prop) (past : List α) : Prop :=
  ∀ before x after, past = before ++ x :: after → P before x

theorem atEvery_nil (P : List α → α → Prop) : AtEvery P [] := by
  intro before x after split
  simp at split

/-- At most one entry is added. -/
theorem AtEvery.append {P : List α → α → Prop} {past : List α} {x : Option α} (all : AtEvery P past)
    (last : ∀ y ∈ x, P past y) : AtEvery P (past ++ x.toList) := by
  cases x with
  | none => simpa using all
  | some x =>
    intro before y after split
    rcases List.eq_nil_or_concat after with rfl | ⟨after, z, rfl⟩
    · obtain ⟨rfl, same⟩ := List.append_inj' split rfl
      cases same
      exact last x rfl
    · rw [List.concat_eq_append, ← List.cons_append, ← List.append_assoc] at split
      exact all before y after (List.append_inj' split rfl).1

theorem getElem?_snoc {l : List α} {x y : α} {k : Nat} (there : (l ++ [x])[k]? = some y) :
    l[k]? = some y ∨ k = l.length ∧ y = x := by
  rcases Nat.lt_trichotomy k l.length with inside | rfl | behind
  · exact .inl (List.getElem?_append_left inside ▸ there)
  · exact .inr ⟨rfl, by simpa using there.symm⟩
  · simp [behind] at there

/-- An entry of a part of the history stands somewhere in it, behind as many entries of that part. -/
theorem exists_split_of_filterMap {f : α → Option β} {past : List α} {k : Nat} {y : β}
    (there : (past.filterMap f)[k]? = some y) :
    ∃ before x after, past = before ++ x :: after ∧ f x = some y ∧
      (before.filterMap f).length = k := by
  induction past generalizing k with
  | nil => simp at there
  | cons x past ih =>
    cases here : f x with
    | none =>
      rw [List.filterMap_cons_none here] at there
      obtain ⟨before, z, after, rfl, is, count⟩ := ih there
      exact ⟨x :: before, z, after, rfl, is, by rw [List.filterMap_cons_none here, count]⟩
    | some w =>
      rw [List.filterMap_cons_some here] at there
      cases k with
      | zero =>
        cases there
        exact ⟨[], x, past, rfl, here, rfl⟩
      | succ k =>
        obtain ⟨before, z, after, rfl, is, count⟩ := ih there
        refine ⟨x :: before, z, after, rfl, is, ?_⟩
        rw [List.filterMap_cons_some here, List.length_cons, count]

end MiniKvm.Lib.Histories
