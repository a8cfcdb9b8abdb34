import Mathlib

/-!
# Runs of an event-driven system

A system is a partial step function. The event resolves every choice that the scheduler or the
environment has, so a run is a list of events and a property of every interleaving is a property
of every list of events that runs. Steps may carry a label; the trace of a run is the list of its
labels, and step conditions and invariants may read the trace so far.
-/
namespace MiniKvm.Lib.Lts

structure System (σ ε ℓ : Type*) where
  step : σ → ε → Option σ
  label : σ → ε → Option ℓ

namespace System

variable {σ ε ℓ : Type*} (sys : System σ ε ℓ)

/-- The state after a list of events, `none` when one of them is not enabled. -/
def run : σ → List ε → Option σ
  | s, [] => some s
  | s, e :: es => (sys.step s e).bind fun t => run t es

/-- The labels of the steps of a run, oldest first. -/
def trace : σ → List ε → List ℓ
  | _, [] => []
  | s, e :: es =>
    match sys.step s e with
    | none => []
    | some t => (sys.label s e).toList ++ trace t es

/-- Every step of the run meets `ok`, given the trace up to it and the state before it. -/
def Steps (ok : List ℓ → σ → ε → Prop) : List ℓ → σ → List ε → Prop
  | _, _, [] => True
  | past, s, e :: es => ok past s e ∧
    match sys.step s e with
    | none => True
    | some t => Steps ok (past ++ (sys.label s e).toList) t es

instance Steps.decidable (ok : List ℓ → σ → ε → Prop) [∀ past s e, Decidable (ok past s e)] :
    ∀ past s es, Decidable (sys.Steps ok past s es)
  | _, _, [] => isTrue trivial
  | past, s, e :: es =>
    have : Decidable (match sys.step s e with
        | none => True
        | some t => sys.Steps ok (past ++ (sys.label s e).toList) t es) :=
      match sys.step s e with
      | none => isTrue trivial
      | some t => Steps.decidable ok (past ++ (sys.label s e).toList) t es
    inferInstanceAs (Decidable (_ ∧ _))

/-- A run from `init`: its events, and the state they lead to. -/
structure Run (init : σ) where
  events : List ε
  final : σ
  reaches : sys.run init events = some final

@[simp] theorem run_nil (s : σ) : sys.run s [] = some s := rfl

@[simp] theorem trace_nil (s : σ) : sys.trace s [] = [] := rfl

/-- A run that starts with `e` takes that step and goes on from there. -/
theorem run_cons {s u : σ} {e : ε} {es : List ε} :
    sys.run s (e :: es) = some u ↔ ∃ t, sys.step s e = some t ∧ sys.run t es = some u := by
  simp only [run, Option.bind_eq_some_iff]

theorem run_append {s u : σ} {as bs : List ε} :
    sys.run s (as ++ bs) = some u ↔ ∃ t, sys.run s as = some t ∧ sys.run t bs = some u := by
  induction as generalizing s with
  | nil => simp
  | cons e as ih =>
    simp only [List.cons_append, run_cons, ih]
    constructor
    · rintro ⟨t, ht, v, hv, hu⟩
      exact ⟨v, ⟨t, ht, hv⟩, hu⟩
    · rintro ⟨v, ⟨t, ht, hv⟩, hu⟩
      exact ⟨t, ht, v, hv, hu⟩

theorem trace_cons {s t : σ} {e : ε} (es : List ε) (h : sys.step s e = some t) :
    sys.trace s (e :: es) = (sys.label s e).toList ++ sys.trace t es := by
  simp only [trace, h]

theorem steps_cons {ok : List ℓ → σ → ε → Prop} {past : List ℓ} {s t : σ} {e : ε} {es : List ε}
    (h : sys.step s e = some t) :
    sys.Steps ok past s (e :: es) ↔
      ok past s e ∧ sys.Steps ok (past ++ (sys.label s e).toList) t es := by
  simp only [Steps, h]

/-- The run rule: what every allowed step preserves holds in every state an allowed run reaches. -/
theorem invariant_run (Inv : List ℓ → σ → Prop) {ok : List ℓ → σ → ε → Prop}
    (preserved : ∀ past s e t, Inv past s → ok past s e → sys.step s e = some t →
      Inv (past ++ (sys.label s e).toList) t)
    {es : List ε} {past : List ℓ} {s u : σ} (start : Inv past s)
    (allowed : sys.Steps ok past s es) (reaches : sys.run s es = some u) :
    Inv (past ++ sys.trace s es) u := by
  induction es generalizing past s with
  | nil =>
    cases reaches
    simpa using start
  | cons e es ih =>
    obtain ⟨t, ht, hu⟩ := sys.run_cons.mp reaches
    obtain ⟨hok, hrest⟩ := (sys.steps_cons ht).mp allowed
    rw [sys.trace_cons es ht, ← List.append_assoc]
    exact ih (preserved _ _ _ _ start hok ht) hrest hu

/-- The run rule for an invariant that reads no trace and holds along every run. -/
theorem invariant_reachable {Inv : σ → Prop}
    (preserved : ∀ s e t, Inv s → sys.step s e = some t → Inv t)
    {es : List ε} {s u : σ} (start : Inv s) (reaches : sys.run s es = some u) : Inv u := by
  induction es generalizing s with
  | nil =>
    cases reaches
    exact start
  | cons e es ih =>
    obtain ⟨t, ht, hu⟩ := sys.run_cons.mp reaches
    exact ih (preserved _ _ _ start ht) hu

/-- A step condition on a run is a condition on each of its prefixes. -/
theorem steps_left {ok : List ℓ → σ → ε → Prop} {past : List ℓ} {s : σ} {as bs : List ε}
    (h : sys.Steps ok past s (as ++ bs)) : sys.Steps ok past s as := by
  induction as generalizing past s with
  | nil => trivial
  | cons e as ih =>
    refine ⟨h.1, ?_⟩
    have rest := h.2
    split
    · trivial
    · next t ht =>
      rw [ht] at rest
      exact ih rest

/-- Where a property that fails at first holds in the end, some step made it true. -/
theorem exists_crossing {P : σ → Prop} {es : List ε} {s u : σ} (start : ¬ P s) (final : P u)
    (reaches : sys.run s es = some u) :
    ∃ as e bs v w, es = as ++ e :: bs ∧ sys.run s as = some v ∧ sys.step v e = some w ∧
      sys.run w bs = some u ∧ ¬ P v ∧ P w := by
  induction es generalizing s with
  | nil =>
    cases reaches
    exact absurd final start
  | cons e es ih =>
    obtain ⟨t, ht, hu⟩ := sys.run_cons.mp reaches
    by_cases holds : P t
    · exact ⟨[], e, es, s, t, rfl, rfl, ht, hu, start, holds⟩
    · obtain ⟨as, e', bs, v, w, rfl, hv, hw, hbs, before, after⟩ := ih holds hu
      exact ⟨e :: as, e', bs, v, w, rfl, sys.run_cons.mpr ⟨t, ht, hv⟩, hw, hbs, before, after⟩

theorem steps_of_forall {ok : List ℓ → σ → ε → Prop} (all : ∀ past s e, ok past s e)
    (past : List ℓ) (s : σ) (es : List ε) : sys.Steps ok past s es := by
  induction es generalizing past s with
  | nil => trivial
  | cons e es ih =>
    refine ⟨all past s e, ?_⟩
    split
    · trivial
    · next t _ => exact ih _ t

theorem steps_and {ok ok' : List ℓ → σ → ε → Prop} {past : List ℓ} {s : σ} {es : List ε}
    (h : sys.Steps ok past s es) (h' : sys.Steps ok' past s es) :
    sys.Steps (fun past s e => ok past s e ∧ ok' past s e) past s es := by
  induction es generalizing past s with
  | nil => trivial
  | cons e es ih =>
    refine ⟨⟨h.1, h'.1⟩, ?_⟩
    have rest := h.2
    have rest' := h'.2
    split
    · trivial
    · next t ht =>
      rw [ht] at rest rest'
      exact ih rest rest'

/-- A condition that the trace of a run keeps as it grows is one on each step. -/
theorem steps_of_trace {P : List ℓ → Prop} (closed : ∀ ls ms, P (ls ++ ms) → P ls)
    {past : List ℓ} {s u : σ} {es : List ε} (reaches : sys.run s es = some u)
    (h : P (past ++ sys.trace s es)) :
    sys.Steps (fun past s e => P (past ++ (sys.label s e).toList)) past s es := by
  induction es generalizing past s with
  | nil => trivial
  | cons e es ih =>
    obtain ⟨t, ht, hu⟩ := sys.run_cons.mp reaches
    rw [sys.trace_cons es ht, ← List.append_assoc] at h
    exact (sys.steps_cons ht).mpr ⟨closed _ _ h, ih hu h⟩

/-- Two step conditions that agree wherever an invariant holds allow the same runs; the invariant
need only survive the steps that are allowed. -/
theorem steps_congr (Inv : List ℓ → σ → Prop) {given ok ok' : List ℓ → σ → ε → Prop}
    (preserved : ∀ past s e t, Inv past s → given past s e → ok past s e →
      sys.step s e = some t → Inv (past ++ (sys.label s e).toList) t)
    (agree : ∀ past s e t, Inv past s → sys.step s e = some t → (ok past s e ↔ ok' past s e))
    {es : List ε} {past : List ℓ} {s u : σ} (start : Inv past s)
    (allowed : sys.Steps given past s es) (reaches : sys.run s es = some u) :
    sys.Steps ok past s es ↔ sys.Steps ok' past s es := by
  induction es generalizing past s with
  | nil => exact Iff.rfl
  | cons e es ih =>
    obtain ⟨t, ht, hu⟩ := sys.run_cons.mp reaches
    obtain ⟨now, later⟩ := (sys.steps_cons ht).mp allowed
    rw [sys.steps_cons ht, sys.steps_cons ht, ← agree _ _ _ _ start ht]
    refine and_congr_right fun this => ?_
    exact ih (preserved _ _ _ _ start now this ht) later hu

/-- What an invariant allows that the allowed steps preserve, an allowed run does. -/
theorem steps_of_allowed (Inv : σ → Prop) {ok ok' : List ℓ → σ → ε → Prop}
    (preserved : ∀ past s e t, Inv s → ok past s e → sys.step s e = some t → Inv t)
    (allows : ∀ past s e t, Inv s → ok past s e → sys.step s e = some t → ok' past s e)
    {es : List ε} {past : List ℓ} {s u : σ} (start : Inv s) (allowed : sys.Steps ok past s es)
    (reaches : sys.run s es = some u) : sys.Steps ok' past s es := by
  induction es generalizing past s with
  | nil => trivial
  | cons e es ih =>
    obtain ⟨t, ht, hu⟩ := sys.run_cons.mp reaches
    obtain ⟨now, later⟩ := (sys.steps_cons ht).mp allowed
    exact (sys.steps_cons ht).mpr ⟨allows _ _ _ _ start now ht,
      ih (preserved _ _ _ _ start now ht) later hu⟩

/-- What an invariant allows, every run does. -/
theorem steps_of_invariant (Inv : σ → Prop) {ok : List ℓ → σ → ε → Prop}
    (preserved : ∀ s e t, Inv s → sys.step s e = some t → Inv t)
    (allows : ∀ past s e t, Inv s → sys.step s e = some t → ok past s e) {es : List ε}
    {past : List ℓ} {s u : σ} (start : Inv s) (reaches : sys.run s es = some u) :
    sys.Steps ok past s es :=
  sys.steps_of_allowed Inv (fun _ s e t inv _ h => preserved s e t inv h)
    (fun past s e t inv _ h => allows past s e t inv h) start
    (sys.steps_of_forall (fun _ _ _ => trivial) past s es) reaches

/-- `P` holds in every state of the run. -/
def Throughout (P : σ → Prop) (s : σ) (es : List ε) : Prop :=
  ∀ as bs t, es = as ++ bs → sys.run s as = some t → P t

/-- It does exactly when it holds at first and each step leads to a state with it. -/
theorem throughout_iff_steps {P : σ → Prop} (past : List ℓ) {s u : σ} {es : List ε}
    (reaches : sys.run s es = some u) :
    sys.Throughout P s es ↔
      P s ∧ sys.Steps (fun _ s e => ∀ t, sys.step s e = some t → P t) past s es := by
  induction es generalizing past s with
  | nil =>
    constructor
    · intro all
      exact ⟨all [] [] s rfl rfl, trivial⟩
    · rintro ⟨first, -⟩ as bs t split has
      obtain ⟨rfl, -⟩ := List.nil_eq_append_iff.mp split
      cases has
      exact first
  | cons e es ih =>
    obtain ⟨t, ht, hu⟩ := sys.run_cons.mp reaches
    rw [sys.steps_cons ht]
    constructor
    · intro all
      have rest : sys.Throughout P t es := fun as bs v split has =>
        all (e :: as) bs v (by rw [split]; rfl) (sys.run_cons.mpr ⟨t, ht, has⟩)
      obtain ⟨next, later⟩ := (ih _ hu).mp rest
      refine ⟨all [] (e :: es) s rfl rfl, fun t' ht' => ?_, later⟩
      cases ht.symm.trans ht'
      exact next
    · rintro ⟨first, next, later⟩ as bs v split has
      cases as with
      | nil =>
        cases has
        exact first
      | cons e' as =>
        obtain ⟨rfl, rfl⟩ := List.cons.inj split
        obtain ⟨t', ht', hv⟩ := sys.run_cons.mp has
        cases ht.symm.trans ht'
        exact (ih _ hu).mpr ⟨next t ht, later⟩ as bs v rfl hv

/-- Once `P` holds in a state of the run it holds in every later one. -/
def Absorbing (P : σ → Prop) (s : σ) (es : List ε) : Prop :=
  ∀ as bs cs t u, es = as ++ (bs ++ cs) → sys.run s as = some t → sys.run t bs = some u → P t → P u

/-- A run absorbs into `P` exactly when each of its steps keeps `P`. -/
theorem absorbing_iff_steps {P : σ → Prop} {past : List ℓ} {s u : σ} {es : List ε}
    (reaches : sys.run s es = some u) :
    sys.Absorbing P s es ↔
      sys.Steps (fun _ s e => ∀ t, sys.step s e = some t → P s → P t) past s es := by
  induction es generalizing past s with
  | nil =>
    refine iff_of_true ?_ trivial
    intro as bs cs t u split has hbs ht
    obtain ⟨rfl, rest⟩ := List.nil_eq_append_iff.mp split
    obtain ⟨rfl, rfl⟩ := List.append_eq_nil_iff.mp rest
    cases has
    cases hbs
    exact ht
  | cons e es ih =>
    obtain ⟨t, ht, hu⟩ := sys.run_cons.mp reaches
    rw [sys.steps_cons ht, ← ih hu]
    constructor
    · intro absorbing
      refine ⟨fun t' ht' => ?_, fun as bs cs v w split has hbs => ?_⟩
      · exact absorbing [] [e] es s t' rfl rfl (sys.run_cons.mpr ⟨t', ht', rfl⟩)
      · exact absorbing (e :: as) bs cs v w (by rw [split]; rfl)
          (sys.run_cons.mpr ⟨t, ht, has⟩) hbs
    · rintro ⟨first, rest⟩ as bs cs v w split has hbs hv
      cases as with
      | nil =>
        cases has
        cases bs with
        | nil => cases hbs; exact hv
        | cons e' bs =>
          -- the run leaves `s` by its first step, which keeps `P`
          obtain ⟨rfl, rfl⟩ := List.cons.inj split
          obtain ⟨t', ht', hw⟩ := sys.run_cons.mp hbs
          cases ht.symm.trans ht'
          exact rest [] bs cs t w rfl rfl hw (first t ht hv)
      | cons e' as =>
        obtain ⟨rfl, rfl⟩ := List.cons.inj split
        obtain ⟨t', ht', hv'⟩ := sys.run_cons.mp has
        cases ht.symm.trans ht'
        exact rest as bs cs v w rfl hv' hbs hv

/-- The progress rule: where every state of `P` outside `Q` has an allowed step that stays in `P` and
lowers a measure, an allowed run leads from `P` to `Q`. -/
theorem exists_run_of_decreases {P Q : σ → Prop} {allowed : ε → Prop} (measure : σ → Nat)
    (progress : ∀ s, P s → ¬ Q s →
      ∃ e t, allowed e ∧ sys.step s e = some t ∧ P t ∧ measure t < measure s) {s : σ} (start : P s) :
    ∃ es t, (∀ e ∈ es, allowed e) ∧ sys.run s es = some t ∧ P t ∧ Q t := by
  induction h : measure s using Nat.strongRecOn generalizing s with
  | ind m ih =>
    by_cases done : Q s
    · exact ⟨[], s, by simp, rfl, start, done⟩
    · obtain ⟨e, t, ok, ht, inside, less⟩ := progress s start done
      obtain ⟨es, u, allowed, hu, last⟩ := ih (measure t) (h ▸ less) inside rfl
      exact ⟨e :: es, u, by simpa [ok] using allowed, sys.run_cons.mpr ⟨t, ht, hu⟩, last⟩

/-- The run rule for runs of a kind of events. -/
theorem invariant_allowed (Inv : σ → Prop) {allowed : ε → Prop}
    (preserved : ∀ s e t, Inv s → allowed e → sys.step s e = some t → Inv t) {es : List ε} {s u : σ}
    (start : Inv s) (ok : ∀ e ∈ es, allowed e) (reaches : sys.run s es = some u) : Inv u := by
  induction es generalizing s with
  | nil =>
    cases reaches
    exact start
  | cons e es ih =>
    obtain ⟨t, ht, hu⟩ := sys.run_cons.mp reaches
    obtain ⟨first, rest⟩ := List.forall_mem_cons.mp ok
    exact ih (preserved _ _ _ start first ht) rest hu

/-- The run of a list of events that evaluates to a state. -/
def Run.ofEvents {sys : System σ ε ℓ} {init : σ} (es : List ε)
    (h : (sys.run init es).isSome = true) : sys.Run init :=
  ⟨es, (sys.run init es).get h, (Option.some_get h).symm⟩

/-- A run found by evaluation is a run. -/
theorem exists_of_eval {p : σ → Bool} {b : Bool} {s : σ} {es : List ε}
    (h : (sys.run s es).map p = some b) : ∃ u, sys.run s es = some u ∧ p u = b := by
  cases hr : sys.run s es with
  | none => simp [hr] at h
  | some u => exact ⟨u, rfl, by simpa [hr] using h⟩

/-- A run that evaluates to a state with `P`, and then to one without it. -/
theorem not_absorbing {P : σ → Prop} [DecidablePred P] {s : σ} {as bs : List ε}
    (holds : (sys.run s as).map (fun t => decide (P t)) = some true)
    (lost : (sys.run s (as ++ bs)).map (fun t => decide (P t)) = some false) :
    ¬ sys.Absorbing P s (as ++ bs) := by
  intro absorbing
  obtain ⟨t, ht, ok⟩ := sys.exists_of_eval holds
  obtain ⟨u, hu, bad⟩ := sys.exists_of_eval lost
  obtain ⟨t', ht', hbs⟩ := sys.run_append.mp hu
  cases ht.symm.trans ht'
  exact of_decide_eq_false bad
    (absorbing as bs [] t u (by simp) ht hbs (of_decide_eq_true ok))

end System

/-! ## Traces in which two entries take turns -/

section Turns

variable {α : Type*}

/-- `a`, `b`, `a`, `b`, and so on. -/
def Alternates (a b : α) : List α → Prop
  | [] => True
  | x :: xs => x = a ∧ Alternates b a xs

instance Alternates.decidable [DecidableEq α] (a b : α) : ∀ xs, Decidable (Alternates a b xs)
  | [] => isTrue trivial
  | _ :: xs =>
    have := Alternates.decidable b a xs
    inferInstanceAs (Decidable (_ ∧ _))

/-- The entry whose turn it is after `xs`. -/
def turn (a b : α) : List α → α
  | [] => a
  | _ :: xs => turn b a xs

@[simp] theorem turn_append_singleton (a b x : α) (xs : List α) :
    turn a b (xs ++ [x]) = turn b a xs := by
  induction xs generalizing a b with
  | nil => rfl
  | cons y xs ih => exact ih b a

theorem turn_eq_or (a b : α) (xs : List α) : turn a b xs = a ∨ turn a b xs = b := by
  induction xs generalizing a b with
  | nil => exact .inl rfl
  | cons y xs ih => exact (ih b a).symm

/-- The turn goes from one entry to the other. -/
theorem turn_swap [DecidableEq α] {a b : α} (distinct : a ≠ b) (xs : List α) :
    turn b a xs = if turn a b xs = a then b else a := by
  induction xs generalizing a b with
  | nil => simp [turn]
  | cons y xs ih =>
    have other := ih distinct
    have one := turn_eq_or a b xs
    simp only [turn]
    grind

theorem alternates_append_singleton {a b x : α} {xs : List α} :
    Alternates a b (xs ++ [x]) ↔ Alternates a b xs ∧ x = turn a b xs := by
  induction xs generalizing a b with
  | nil => simp [Alternates, turn]
  | cons y xs ih => simp only [List.cons_append, Alternates, turn, ih, and_assoc]

theorem Alternates.left {a b : α} {xs ys : List α} (h : Alternates a b (xs ++ ys)) :
    Alternates a b xs := by
  induction xs generalizing a b with
  | nil => trivial
  | cons x xs ih => exact ⟨h.1, ih h.2⟩

end Turns

end MiniKvm.Lib.Lts
