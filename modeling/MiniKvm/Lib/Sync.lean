import Mathlib

/-!
# Mutexes and condition variables

Default mutexes: `lock` blocks while the mutex is owned, by the caller too, and `unlock` frees it
whoever owns it. A thread inside `wait` is either asleep or has been handed its wake-up; it leaves
`wait` only after the wake-up, and only by owning the mutex again. There are no spurious wake-ups.
-/
namespace MiniKvm.Lib.Sync

structure Mutex (ι : Type*) where
  owner : Option ι
  deriving DecidableEq, Repr

namespace Mutex

variable {ι : Type*}

def unowned : Mutex ι := ⟨none⟩

/-- `none` while the mutex is owned: the caller blocks. -/
def lock (m : Mutex ι) (t : ι) : Option (Mutex ι) :=
  match m.owner with
  | none => some ⟨some t⟩
  | some _ => none

def unlock (_ : Mutex ι) : Mutex ι := unowned

@[simp] theorem unowned_owner : (unowned : Mutex ι).owner = none := rfl

@[simp] theorem unlock_owner (m : Mutex ι) : m.unlock.owner = none := rfl

@[simp] theorem lock_isSome (m : Mutex ι) (t : ι) : (m.lock t).isSome = m.owner.isNone := by
  unfold lock
  cases m.owner <;> rfl

theorem lock_eq_some {m m' : Mutex ι} {t : ι} :
    m.lock t = some m' ↔ m.owner = none ∧ m' = ⟨some t⟩ := by
  unfold lock
  split
  · next h => simp [h, eq_comm]
  · next h => simp [h]

end Mutex

inductive Wait where
  | asleep | woken
  deriving DecidableEq, Repr

/-- The threads inside `wait`, with what each of them has been handed. -/
structure CondVar (ι : Type*) where
  waiter : ι → Option Wait

namespace CondVar

variable {ι : Type*} [DecidableEq ι]

def nobody : CondVar ι := ⟨fun _ => none⟩

/-- `t` goes to sleep; the mutex is given up in the same step. -/
def wait (c : CondVar ι) (t : ι) : CondVar ι := ⟨Function.update c.waiter t (some .asleep)⟩

/-- A signal that reaches `t`, which has to be asleep. -/
def wake (c : CondVar ι) (t : ι) : Option (CondVar ι) :=
  if c.waiter t = some .asleep then some ⟨Function.update c.waiter t (some .woken)⟩ else none

/-- `t` leaves `wait`. -/
def leave (c : CondVar ι) (t : ι) : CondVar ι := ⟨Function.update c.waiter t none⟩

/-- A signal that reaches nobody: no thread is asleep. -/
def NobodyAsleep (c : CondVar ι) : Prop := ∀ t, c.waiter t ≠ some .asleep

/-- At most one thread is asleep, so one signal empties the condition variable. -/
def AtMostOneAsleep (c : CondVar ι) : Prop :=
  ∀ t u, c.waiter t = some .asleep → c.waiter u = some .asleep → t = u

omit [DecidableEq ι] in
@[simp] theorem nobody_waiter (t : ι) : (nobody : CondVar ι).waiter t = none := rfl

theorem wait_waiter (c : CondVar ι) (t u : ι) :
    (c.wait t).waiter u = if u = t then some .asleep else c.waiter u := by
  simp only [wait, Function.update_apply]

theorem leave_waiter (c : CondVar ι) (t u : ι) :
    (c.leave t).waiter u = if u = t then none else c.waiter u := by
  simp only [leave, Function.update_apply]

theorem wake_eq_some {c c' : CondVar ι} {t : ι} :
    c.wake t = some c' ↔
      c.waiter t = some .asleep ∧ c' = ⟨Function.update c.waiter t (some .woken)⟩ := by
  unfold wake
  split <;> simp_all [eq_comm]

/-- One signal is enough when at most one thread is asleep. -/
theorem nobodyAsleep_of_wake {c c' : CondVar ι} {t : ι} (one : c.AtMostOneAsleep)
    (h : c.wake t = some c') : c'.NobodyAsleep := by
  obtain ⟨ht, rfl⟩ := wake_eq_some.mp h
  intro u hu
  by_cases hut : u = t
  · subst hut
    simp at hu
  · simp only [Function.update_of_ne hut] at hu
    exact hut (one u t hu ht)

end CondVar

end MiniKvm.Lib.Sync
