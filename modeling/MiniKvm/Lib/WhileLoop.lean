import Mathlib

/-!
# Loops that need not end

A while loop with an output, run on fuel, and the values of a counter that wraps.
-/
namespace MiniKvm.Lib.WhileLoop

variable {σ α : Type*} {step : σ → Option (List α × σ)}

/-- The output of a loop from state `s` on, which ends where `step` is `none`; `none` when the fuel
is used up before. -/
def collect (step : σ → Option (List α × σ)) : Nat → σ → Option (List α)
  | 0, _ => none
  | fuel + 1, s =>
    match step s with
    | none => some []
    | some (now, next) => (collect step fuel next).map (now ++ ·)

theorem collect_mono {fuel more : Nat} {s : σ} {out : List α} (le : fuel ≤ more)
    (ends : collect step fuel s = some out) : collect step more s = some out := by
  induction fuel generalizing more s out with
  | zero => cases ends
  | succ fuel ih =>
    obtain ⟨more, rfl⟩ : ∃ m, more = m + 1 := ⟨more - 1, by omega⟩
    simp only [collect] at ends ⊢
    split at ends
    · exact ends
    · obtain ⟨later, rest, rfl⟩ := Option.map_eq_some_iff.mp ends
      rw [ih (by omega) rest]
      rfl

/-- The state after so many rounds, `none` where the loop has ended before. -/
def nth (step : σ → Option (List α × σ)) : Nat → σ → Option σ
  | 0, s => some s
  | k + 1, s => (step s).bind fun round => nth step k round.2

/-- The states of a loop in order: in state `u k` it goes on as long as `goes k`, with output `now k`. -/
structure Follows (step : σ → Option (List α × σ)) (u : Nat → σ) (now : Nat → List α)
    (goes : Nat → Prop) : Prop where
  next : ∀ k, goes k → step (u k) = some (now k, u (k + 1))
  stops : ∀ k, ¬ goes k → step (u k) = none

section Follows

variable {u : Nat → σ} {now : Nat → List α} {goes : Nat → Prop} {P : α → Prop}

theorem Follows.exists_stop (follows : Follows step u now goes) {fuel k : Nat} {out : List α}
    (ends : collect step fuel (u k) = some out) (all : ∀ x ∈ out, P x) :
    ∃ n, ¬ goes (k + n) ∧ ∀ i < n, goes (k + i) ∧ ∀ x ∈ now (k + i), P x := by
  induction fuel generalizing k out with
  | zero => cases ends
  | succ fuel ih =>
    by_cases here : goes k
    · simp only [collect, follows.next k here] at ends
      obtain ⟨later, rest, rfl⟩ := Option.map_eq_some_iff.mp ends
      obtain ⟨n, stop, before⟩ := ih rest fun x member => all x (List.mem_append_right _ member)
      refine ⟨n + 1, by rwa [Nat.add_right_comm, Nat.add_assoc] at stop, ?_⟩
      intro i inside
      cases i with
      | zero => exact ⟨here, fun x member => all x (List.mem_append_left _ member)⟩
      | succ i =>
        rw [Nat.add_comm i 1, ← Nat.add_assoc]
        exact before i (by omega)
    · exact ⟨0, here, fun i inside => absurd inside (Nat.not_lt_zero i)⟩

theorem Follows.exists_fuel (follows : Follows step u now goes) {k n : Nat}
    (stop : ¬ goes (k + n)) (before : ∀ i < n, goes (k + i) ∧ ∀ x ∈ now (k + i), P x) :
    ∃ fuel out, collect step fuel (u k) = some out ∧ ∀ x ∈ out, P x := by
  induction n generalizing k with
  | zero => exact ⟨1, [], by simp only [collect, follows.stops k stop], by simp⟩
  | succ n ih =>
    obtain ⟨here, first⟩ := before 0 (Nat.succ_pos n)
    obtain ⟨fuel, out, rest, later⟩ := ih (k := k + 1) (by rwa [Nat.add_right_comm, Nat.add_assoc])
      fun i inside => by
        rw [Nat.add_assoc, Nat.add_comm 1 i]
        exact before (i + 1) (by omega)
    refine ⟨fuel + 1, now k ++ out, ?_, ?_⟩
    · simp only [collect, follows.next k here, rest, Option.map_some]
    · intro x member
      rcases List.mem_append.mp member with now | after
      · exact first x now
      · exact later x after

/-- A loop ends with a good output exactly when it stops somewhere, and what it puts out as long as it
goes is good. -/
theorem Follows.collect_iff (follows : Follows step u now goes) :
    (∃ fuel out, collect step fuel (u 0) = some out ∧ ∀ x ∈ out, P x) ↔
      (∃ n, ¬ goes n) ∧ ∀ k, (∀ i ≤ k, goes i) → ∀ x ∈ now k, P x := by
  constructor
  · rintro ⟨fuel, out, ends, all⟩
    obtain ⟨n, stop, before⟩ := follows.exists_stop ends all
    simp only [Nat.zero_add] at stop before
    refine ⟨⟨n, stop⟩, ?_⟩
    intro k goesOn
    refine (before k ?_).2
    by_contra behind
    exact stop (goesOn n (Nat.le_of_not_lt behind))
  · classical
    rintro ⟨stops, good⟩
    have goesOn : ∀ i < Nat.find stops, goes i := fun i inside => by
      simpa using Nat.find_min stops inside
    refine follows.exists_fuel (n := Nat.find stops) ?_ ?_
    · simpa using Nat.find_spec stops
    · intro i inside
      rw [Nat.zero_add]
      exact ⟨goesOn i inside, good i fun j le => goesOn j (by omega)⟩

theorem Follows.collect_eq_from (follows : Follows step u now goes) {k n fuel : Nat}
    (before : ∀ i < n, goes (k + i)) (stop : ¬ goes (k + n)) (enough : n < fuel) :
    collect step fuel (u k) = some ((List.range' k n).flatMap now) := by
  induction n generalizing k fuel with
  | zero =>
    obtain ⟨fuel, rfl⟩ : ∃ f, fuel = f + 1 := ⟨fuel - 1, by omega⟩
    simp only [collect, follows.stops k stop]
    rfl
  | succ n ih =>
    obtain ⟨fuel, rfl⟩ : ∃ f, fuel = f + 1 := ⟨fuel - 1, by omega⟩
    have rest : collect step fuel (u (k + 1)) = some ((List.range' (k + 1) n).flatMap now) := by
      refine ih (fun i inside => ?_) (by rwa [Nat.add_assoc, Nat.add_comm 1 n]) (by omega)
      rw [Nat.add_assoc, Nat.add_comm 1 i]
      exact before (i + 1) (by omega)
    simp only [collect, follows.next k (before 0 (Nat.succ_pos n)), rest, Option.map_some,
      List.range'_succ, List.flatMap_cons]

/-- A loop that stops in its state `n`, and not before, puts out what belongs to the states up to
there. -/
theorem Follows.collect_eq (follows : Follows step u now goes) (n fuel : Nat)
    (before : ∀ i < n, goes i) (stop : ¬ goes n) (enough : n < fuel) :
    collect step fuel (u 0) = some ((List.range n).flatMap now) := by
  rw [List.range_eq_range']
  exact follows.collect_eq_from (k := 0) (by simpa using before) (by simpa using stop) enough

theorem Follows.nth_iff_from (follows : Follows step u now goes) (j k : Nat) (s : σ) :
    nth step k (u j) = some s ↔ (∀ i < k, goes (j + i)) ∧ s = u (j + k) := by
  induction k generalizing j with
  | zero => simp [nth, eq_comm]
  | succ k ih =>
    by_cases here : goes j
    · have rest := ih (j + 1)
      simp only [nth, follows.next j here, Option.bind_some, rest]
      rw [show j + 1 + k = j + (k + 1) by omega]
      refine and_congr_left fun _ => ⟨fun later i inside => ?_, fun all i inside => ?_⟩
      · cases i with
        | zero => exact here
        | succ i =>
          have := later i (by omega)
          rwa [show j + 1 + i = j + (i + 1) by omega] at this
      · have := all (i + 1) (by omega)
        rwa [show j + (i + 1) = j + 1 + i by omega] at this
    · simp only [nth, follows.stops j here, Option.bind_none]
      refine iff_of_false (fun none => Option.some_ne_none s none.symm) ?_
      rintro ⟨all, -⟩
      exact here (all 0 (Nat.succ_pos k))

/-- The state after `k` rounds is the `k`-th, where the loop gets there. -/
theorem Follows.nth_iff (follows : Follows step u now goes) (k : Nat) (s : σ) :
    nth step k (u 0) = some s ↔ (∀ i < k, goes i) ∧ s = u k := by
  have from_zero := follows.nth_iff_from 0 k s
  simpa only [Nat.zero_add] using from_zero

/-- What is put out may be changed on the way. -/
theorem Follows.map {β : Type*} (follows : Follows step u now goes) (f : List α → List β) :
    Follows (fun s => (step s).map fun round => (f round.1, round.2)) u (fun k => f (now k)) goes :=
  ⟨fun k here => by rw [follows.next k here]; rfl, fun k here => by rw [follows.stops k here]; rfl⟩

/-- A loop that always goes on uses up any fuel. -/
theorem Follows.collect_none (follows : Follows step u now goes) (always : ∀ k, goes k)
    (fuel k : Nat) : collect step fuel (u k) = none := by
  induction fuel generalizing k with
  | zero => rfl
  | succ fuel ih => simp only [collect, follows.next k (always k), ih, Option.map_none]

end Follows

/-! ## Counters that wrap -/

theorem gcd_dvd_mul_mod (w t k : Nat) : Nat.gcd w t ∣ k * w % t :=
  (Nat.dvd_mod_iff (Nat.gcd_dvd_right w t)).mpr ((Nat.gcd_dvd_left w t).mul_left k)

/-- A counter that goes round modulo `t` in steps of `w` comes by every multiple of their gcd. -/
theorem exists_mul_mod_eq {w t r : Nat} (pos : 0 < w) (step : w < t) (inside : r < t)
    (multiple : Nat.gcd w t ∣ r) : ∃ k, k * w % t = r := by
  have small : Nat.gcd w t < t := Nat.lt_of_le_of_lt (Nat.gcd_le_left t pos) step
  obtain ⟨m, -, round⟩ := Nat.exists_mul_mod_eq_gcd small
  obtain ⟨q, rfl⟩ := multiple
  refine ⟨m * q, ?_⟩
  rw [Nat.mul_comm, ← Nat.mul_assoc, Nat.mul_mod, round, ← Nat.mul_mod_mod, Nat.mod_mod,
    Nat.mul_mod_mod, Nat.mod_eq_of_lt inside]

end MiniKvm.Lib.WhileLoop
