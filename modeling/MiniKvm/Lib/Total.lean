import Mathlib

/-!
# Programs that end

Programs on a state whose loops run on fuel: `none` where a loop has used it up. `Ends` is total
correctness. From every state of the precondition the program ends, in a state of the postcondition.
-/
namespace MiniKvm.Lib.Total

universe u

variable {σ κ α β : Type u}

/-- A while loop: the body goes on from a new counter, or leaves the loop with its result. -/
def loop (body : κ → StateT σ Option (κ ⊕ β)) : Nat → κ → StateT σ Option β
  | 0, _ => fun _ => none
  | fuel + 1, k => body k >>= fun
    | .inl next => loop body fuel next
    | .inr result => pure result

def Ends (pre : σ → Prop) (program : StateT σ Option α) (post : α → σ → Prop) : Prop :=
  ∀ s, pre s → ∃ result t, program s = some (result, t) ∧ post result t

section Rules

variable {pre pre' : σ → Prop} {program : StateT σ Option α} {post post' : α → σ → Prop}

theorem Ends.pure {result : α} (holds : ∀ s, pre s → post result s) :
    Ends pre (Pure.pure result : StateT σ Option α) post :=
  fun s here => ⟨result, s, rfl, holds s here⟩

theorem Ends.bind {mid : α → σ → Prop} {next : α → StateT σ Option β} {post : β → σ → Prop}
    (first : Ends pre program mid) (rest : ∀ result, Ends (mid result) (next result) post) :
    Ends pre (program >>= next) post := by
  intro s here
  obtain ⟨result, t, runs, between⟩ := first s here
  obtain ⟨last, u, ends, after⟩ := rest result t between
  refine ⟨last, u, ?_, after⟩
  change (program s >>= fun r => next r.1 r.2) = _
  rw [runs]
  exact ends

theorem Ends.modify {change : σ → σ} {post : PUnit → σ → Prop}
    (holds : ∀ s, pre s → post ⟨⟩ (change s)) :
    Ends pre (modify change : StateT σ Option PUnit) post :=
  fun s here => ⟨⟨⟩, change s, rfl, holds s here⟩

theorem Ends.weaken (ends : Ends pre program post) (stronger : ∀ s, pre' s → pre s)
    (weaker : ∀ result s, post result s → post' result s) : Ends pre' program post' := by
  intro s here
  obtain ⟨result, t, runs, after⟩ := ends s (stronger s here)
  exact ⟨result, t, runs, weaker result t after⟩

/-- What the precondition says without the state is a hypothesis. -/
theorem Ends.assuming {fact : Prop} (ends : fact → Ends pre program post) :
    Ends (fun s => fact ∧ pre s) program post :=
  fun s here => ends here.1 s here.2

theorem Ends.ite {c : Prop} [Decidable c] {other : StateT σ Option α}
    (holds : c → Ends pre program post) (fails : ¬ c → Ends pre other post) :
    Ends pre (if c then program else other) post := by
  split
  · next here => exact holds here
  · next absent => exact fails absent

/-- What one round of a loop leaves: the invariant and a smaller variant, or the postcondition. -/
def AfterRound (inv : κ → σ → Prop) (variant : κ → Nat) (k : κ) (post : β → σ → Prop) : κ ⊕ β → σ → Prop
  | .inl next => fun s => variant next < variant k ∧ inv next s
  | .inr result => post result

/-- The body goes round once more. -/
theorem Ends.again {inv : κ → σ → Prop} {variant : κ → Nat} {k next : κ} {post : β → σ → Prop}
    (less : variant next < variant k) (holds : ∀ s, pre s → inv next s) :
    Ends pre (Pure.pure (.inl next) : StateT σ Option (κ ⊕ β)) (AfterRound inv variant k post) :=
  Ends.pure fun s here => ⟨less, holds s here⟩

/-- The body leaves the loop. -/
theorem Ends.leave {inv : κ → σ → Prop} {variant : κ → Nat} {k : κ} {result : β}
    {post : β → σ → Prop} (holds : ∀ s, pre s → post result s) :
    Ends pre (Pure.pure (.inr result) : StateT σ Option (κ ⊕ β)) (AfterRound inv variant k post) :=
  Ends.pure holds

/-- A loop ends by its variant, and what it leaves follows from its invariant. -/
theorem Ends.loop {body : κ → StateT σ Option (κ ⊕ β)} {post : β → σ → Prop} {fuel : Nat} {k : κ}
    (inv : κ → σ → Prop) (variant : κ → Nat)
    (step : ∀ k, Ends (inv k) (body k) (AfterRound inv variant k post))
    (start : ∀ s, pre s → inv k s) (enough : variant k < fuel) :
    Ends pre (Total.loop body fuel k) post := by
  have ends : Ends (inv k) (Total.loop body fuel k) post := by
    clear start
    induction fuel generalizing k with
    | zero => exact absurd enough (Nat.not_lt_zero _)
    | succ fuel ih =>
      apply (step k).bind
      intro result
      cases result with
      | inl next =>
        apply Ends.assuming
        intro less
        exact ih (by omega)
      | inr result => exact Ends.pure fun _ after => after
  exact ends.weaken start fun _ _ after => after

end Rules

end MiniKvm.Lib.Total
