import MiniKvm.Lib.Lts

/-!
# Simulation

One system refines another when each of its steps can be followed there by a few steps that show the
same. Of a label `observe` tells what is to be seen of it. Then every trace of the lower system is,
as far as it can be seen, one of the higher, and what holds of all traces there holds of it.
-/
namespace MiniKvm.Lib.Lts

variable {σ ε ℓ τ δ m : Type*}

theorem System.trace_append (sys : System σ ε ℓ) {s t : σ} {as : List ε} (bs : List ε)
    (reaches : sys.run s as = some t) : sys.trace s (as ++ bs) = sys.trace s as ++ sys.trace t bs := by
  induction as generalizing s with
  | nil =>
    cases reaches
    rfl
  | cons e as ih =>
    obtain ⟨u, hu, rest⟩ := sys.run_cons.mp reaches
    rw [List.cons_append, sys.trace_cons _ hu, sys.trace_cons _ hu, ih rest, List.append_assoc]

/-- `high` follows the step that shows `seen`, from `a` to a state that is related to `t`. -/
def Follows (high : System τ δ m) (R : σ → τ → Prop) (a : τ) (seen : List m) (t : σ) : Prop :=
  ∃ es b, high.run a es = some b ∧ high.trace a es = seen ∧ R t b

theorem Follows.stay {high : System τ δ m} {R : σ → τ → Prop} {a : τ} {t : σ} (related : R t a) :
    Follows high R a [] t := ⟨[], a, rfl, rfl, related⟩

theorem Follows.one {high : System τ δ m} {R : σ → τ → Prop} {a b : τ} {d : δ} {t : σ}
    (moves : high.step a d = some b) (related : R t b) :
    Follows high R a (high.label a d).toList t :=
  ⟨[d], b, high.run_cons.mpr ⟨b, moves, rfl⟩, by simp [high.trace_cons [] moves], related⟩

def Simulates (low : System σ ε ℓ) (high : System τ δ m) (observe : ℓ → Option m)
    (R : σ → τ → Prop) : Prop :=
  ∀ {s a e t}, R s a → low.step s e = some t →
    Follows high R a ((low.label s e).toList.filterMap observe) t

/-- The run rule. -/
theorem Simulates.run {low : System σ ε ℓ} {high : System τ δ m} {observe : ℓ → Option m}
    {R : σ → τ → Prop} (simulates : Simulates low high observe R) {s t : σ} {a : τ} {es : List ε}
    (related : R s a) (reaches : low.run s es = some t) :
    Follows high R a ((low.trace s es).filterMap observe) t := by
  induction es generalizing s a with
  | nil =>
    cases reaches
    exact .stay related
  | cons e es ih =>
    obtain ⟨u, hu, rest⟩ := low.run_cons.mp reaches
    obtain ⟨first, b, toB, seen, related'⟩ := simulates related hu
    obtain ⟨later, c, toC, seen', final⟩ := ih related' rest
    refine ⟨first ++ later, c, high.run_append.mpr ⟨b, toB, toC⟩, ?_, final⟩
    rw [high.trace_append later toB, seen, seen', low.trace_cons es hu, List.filterMap_append]

end MiniKvm.Lib.Lts
