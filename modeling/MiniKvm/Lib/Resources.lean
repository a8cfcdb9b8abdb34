import Mathlib

/-!
# Resources that are acquired and released

A table of what is open, with the history of how it came to be so. A history is balanced when all that
it releases was acquired before and nothing is held at its end. `Owns` is what a program carries along
its run; from it the end of the run reads off whether the history is balanced.
-/
namespace MiniKvm.Lib.Resources

inductive Act (ρ : Type*) where
  | acquired (r : ρ)
  | released (r : ρ)
  deriving DecidableEq, Repr

section

variable {ρ : Type*} [DecidableEq ρ]

/-- What is held at the end of a history, from `held` on; `none` when it releases what is not held. -/
def holds (held : List ρ) : List (Act ρ) → Option (List ρ)
  | [] => some held
  | .acquired r :: acts => holds (r :: held) acts
  | .released r :: acts => if r ∈ held then holds (held.erase r) acts else none

/-- All that is acquired is released once, and nothing else is. -/
def Balanced (acts : List (Act ρ)) : Prop := holds [] acts = some []

instance (acts : List (Act ρ)) : Decidable (Balanced acts) :=
  inferInstanceAs (Decidable (_ = _))

theorem holds_append (held : List ρ) (as bs : List (Act ρ)) :
    holds held (as ++ bs) = (holds held as).bind fun held => holds held bs := by
  induction as generalizing held with
  | nil => rfl
  | cons a as ih =>
    cases a with
    | acquired r => exact ih (r :: held)
    | released r =>
      by_cases member : r ∈ held
      · simpa [holds, member] using ih (held.erase r)
      · simp [holds, member]

/-- What a history leaves untouched stays held. -/
theorem holds_frame {held after : List ρ} {acts : List (Act ρ)} (reads : holds held acts = some after)
    (rest : List ρ) : holds (held ++ rest) acts = some (after ++ rest) := by
  induction acts generalizing held with
  | nil =>
    cases reads
    rfl
  | cons a acts ih =>
    cases a with
    | acquired r => exact ih reads
    | released r =>
      by_cases member : r ∈ held
      · rw [holds, if_pos member] at reads
        rw [holds, if_pos (List.mem_append_left rest member), List.erase_append_left rest member]
        exact ih reads
      · simp [holds, member] at reads

/-- What is open, and how it came to be so. -/
structure Table (ρ : Type*) where
  live : List ρ
  history : List (Act ρ)
  deriving DecidableEq, Repr

namespace Table

variable (t : Table ρ)

/-- Nothing has happened yet. -/
def start (live : List ρ) : Table ρ := ⟨live, []⟩

def acquire (r : ρ) : Table ρ := ⟨r :: t.live, t.history ++ [.acquired r]⟩

/-- Releasing what is not open has no effect. -/
def release (r : ρ) : Table ρ :=
  if r ∈ t.live then ⟨t.live.erase r, t.history ++ [.released r]⟩ else t

variable {t}

theorem live_acquire_release {r : ρ} : ((t.acquire r).release r).live = t.live := by
  simp [acquire, release]

end Table

/-- From `t` to `u`, `more` has been acquired, and the rest of what was acquired released again. -/
structure Adds (t u : Table ρ) (more : List ρ) : Prop where
  live : u.live = more ++ t.live
  acts : ∃ acts, u.history = t.history ++ acts ∧ holds [] acts = some more

theorem Adds.refl (t : Table ρ) : Adds t t [] :=
  ⟨rfl, [], (List.append_nil _).symm, rfl⟩

theorem Adds.trans {t u v : Table ρ} {as bs : List ρ} (first : Adds t u as) (next : Adds u v bs) :
    Adds t v (bs ++ as) := by
  obtain ⟨live, acts, history, reads⟩ := first
  obtain ⟨live', acts', history', reads'⟩ := next
  refine ⟨by rw [live', live, List.append_assoc], acts ++ acts', ?_, ?_⟩
  · rw [history', history, List.append_assoc]
  · rw [holds_append, reads]
    exact holds_frame reads' as

theorem Adds.acquire (t : Table ρ) (r : ρ) : Adds t (t.acquire r) [r] :=
  ⟨rfl, [.acquired r], rfl, rfl⟩

theorem Adds.acquire_release (t : Table ρ) (r : ρ) : Adds t ((t.acquire r).release r) [] := by
  refine ⟨Table.live_acquire_release, [.acquired r, .released r], ?_, by simp [holds]⟩
  simp [Table.acquire, Table.release]

/-- All that has been released had been acquired, and what has not been released is `owned`, and
open. -/
structure Owns (t : Table ρ) (owned : List ρ) : Prop where
  held : ∃ held, holds [] t.history = some held ∧ held.Perm owned
  distinct : owned.Nodup
  live : ∀ r ∈ owned, r ∈ t.live

/-- Something has been released that had not been acquired. -/
def Broken (t : Table ρ) : Prop := holds [] t.history = none

variable {t : Table ρ} {r : ρ} {owned : List ρ}

theorem owns_start (live : List ρ) : Owns (Table.start live) [] :=
  ⟨⟨[], rfl, .nil⟩, List.nodup_nil, by simp⟩

theorem Owns.acquire (owns : Owns t owned) (fresh : r ∉ t.live) : Owns (t.acquire r) (r :: owned) := by
  obtain ⟨⟨held, reads, same⟩, distinct, live⟩ := owns
  refine ⟨⟨r :: held, ?_, same.cons r⟩, ?_, ?_⟩
  · simp [Table.acquire, holds_append, reads, holds]
  · exact List.nodup_cons.mpr ⟨fun member => fresh (live r member), distinct⟩
  · intro q member
    rcases List.mem_cons.mp member with rfl | older
    · exact List.mem_cons_self
    · exact List.mem_cons_of_mem _ (live q older)

theorem Owns.release (owns : Owns t (r :: owned)) : Owns (t.release r) owned := by
  obtain ⟨⟨held, reads, same⟩, distinct, live⟩ := owns
  obtain ⟨alone, distinct⟩ := List.nodup_cons.mp distinct
  have isHeld : r ∈ held := same.mem_iff.mpr List.mem_cons_self
  rw [Table.release, if_pos (live r List.mem_cons_self)]
  refine ⟨⟨held.erase r, ?_, ?_⟩, distinct, ?_⟩
  · simp [holds_append, reads, holds, isHeld]
  · simpa using same.erase r
  · intro q member
    have other : q ≠ r := fun same => alone (same ▸ member)
    exact (List.mem_erase_of_ne other).mpr (live q (List.mem_cons_of_mem _ member))

theorem Owns.perm {owned' : List ρ} (owns : Owns t owned) (same : owned.Perm owned') :
    Owns t owned' := by
  obtain ⟨⟨held, reads, perm⟩, distinct, live⟩ := owns
  exact ⟨⟨held, reads, perm.trans same⟩, same.nodup_iff.mp distinct,
    fun r member => live r (same.mem_iff.mpr member)⟩

theorem Owns.balanced_iff (owns : Owns t owned) : Balanced t.history ↔ owned = [] := by
  obtain ⟨⟨held, reads, same⟩, -, -⟩ := owns
  rw [Balanced, reads, Option.some.injEq]
  constructor
  · rintro rfl
    exact same.nil_eq.symm
  · rintro rfl
    exact same.eq_nil

theorem Owns.broken (owns : Owns t owned) (open_ : r ∈ t.live) (foreign : r ∉ owned) :
    Broken (t.release r) := by
  obtain ⟨⟨held, reads, same⟩, -, -⟩ := owns
  have notHeld : r ∉ held := fun member => foreign (same.mem_iff.mp member)
  rw [Broken, Table.release, if_pos open_]
  simp [holds_append, reads, holds, notHeld]

theorem Broken.not_balanced (broken : Broken t) : ¬ Balanced t.history := by
  rw [Balanced, broken]
  simp

end

/-! ## Numbers that are free -/

/-- The lowest number that is not used. -/
def lowestFree (used : List Nat) : Nat :=
  ((List.range (used.length + 1)).find? fun n => decide (n ∉ used)).getD 0

theorem lowestFree_not_mem (used : List Nat) : lowestFree used ∉ used := by
  unfold lowestFree
  cases found : (List.range (used.length + 1)).find? fun n => decide (n ∉ used) with
  | some n => simpa using List.find?_some found
  | none =>
    -- more numbers than the list has entries
    have all : List.range (used.length + 1) ⊆ used := by
      intro n member
      simpa using List.find?_eq_none.mp found n member
    have long := (List.nodup_range.subperm all).length_le
    simp at long

end MiniKvm.Lib.Resources
