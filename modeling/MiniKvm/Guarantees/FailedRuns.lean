import MiniKvm.Source.VcpuThread

/-!
# Failed calls of KVM_RUN

The loop tests `ret < 0` on a MiniKVMError, which has no negative member. A call that fails for any
reason but EINTR leaves the exit of an earlier call in the area, and the switch handles that exit
once more.
-/
namespace MiniKvm.Guarantees.FailedRuns
open Source Source.VcpuThread

/-- The thread after these calls of KVM_RUN. -/
def after (host : Host) (outcomes : List Outcome) : Thread :=
  kvmVcpuThreadRun host .init outcomes

/-- An interrupted call lets the thread go on, and the first other failure stops the VM without
handling an exit. -/
structure ToldApart (host : Host) (outcomes : List Outcome) : Prop where
  interrupted : ∀ as bs, outcomes = as ++ .interrupted :: bs →
    (after host as).state = .running → (after host (as ++ [.interrupted])).state = .running
  failed : ∀ as bs, outcomes = as ++ .failed :: bs → .failed ∉ as →
    (after host as).state = .running →
      (after host (as ++ [.failed])).state = .shutdown ∧
        (after host (as ++ [.failed])).handled = (after host as).handled

theorem after_running_iff (host : Host) (outcomes : List Outcome) :
    (after host outcomes).state = .running ↔ ∀ o ∈ outcomes, o.shutsDown = false := by
  rw [after, running_iff survived_init]
  exact and_iff_right rfl

/-- A failed call never stops the thread. -/
theorem after_failed {host : Host} {as : List Outcome} (running : (after host as).state = .running) :
    (after host (as ++ [.failed])).state = .running := by
  rw [after_running_iff] at running ⊢
  intro o member
  rcases List.mem_append.mp member with before | last
  · exact running o before
  · rw [List.mem_singleton.mp last]
    rfl

theorem after_interrupted {host : Host} {as : List Outcome}
    (running : (after host as).state = .running) :
    (after host (as ++ [.interrupted])).state = .running := by
  rw [after_running_iff] at running ⊢
  intro o member
  rcases List.mem_append.mp member with before | last
  · exact running o before
  · rw [List.mem_singleton.mp last]
    rfl

/-- Where a failure is reached, so is the first one. -/
theorem exists_first_failure {as : List Outcome} (bs : List Outcome)
    (goesOn : ∀ o ∈ as, o.shutsDown = false) :
    ∃ cs ds, as ++ .failed :: bs = cs ++ .failed :: ds ∧ .failed ∉ cs ∧
      ∀ o ∈ cs, o.shutsDown = false := by
  by_cases earlier : .failed ∈ as
  · obtain ⟨cs, ds, rfl, first⟩ := List.eq_append_cons_of_mem earlier
    refine ⟨cs, ds ++ .failed :: bs, by simp, first, ?_⟩
    intro o member
    exact goesOn o (List.mem_append_left _ member)
  · exact ⟨as, bs, rfl, earlier, goesOn⟩

/-- Failed calls of KVM_RUN are told from interrupted ones exactly where none is made: where every
other failure comes after an exit that has stopped the VM. -/
theorem failed_runs_told_apart_iff (host : Host) (outcomes : List Outcome) :
    ToldApart host outcomes ↔
      ∀ as bs, outcomes = as ++ .failed :: bs → ∃ o ∈ as, o.shutsDown = true := by
  constructor
  · intro told as bs split
    by_contra reached
    push Not at reached
    have goesOn : ∀ o ∈ as, o.shutsDown = false := fun o member =>
      Bool.eq_false_iff.mpr (reached o member)
    obtain ⟨cs, ds, same, first, before⟩ := exists_first_failure bs goesOn
    have running := (after_running_iff host cs).mpr before
    obtain ⟨stopped, -⟩ := told.failed cs ds (split.trans same) first running
    rw [after_failed running] at stopped
    cases stopped
  · intro late
    refine ⟨fun as bs _ running => after_interrupted running, ?_⟩
    intro as bs split _ running
    obtain ⟨o, member, shuts⟩ := late as bs split
    have goesOn := (after_running_iff host as).mp running o member
    rw [shuts] at goesOn
    cases goesOn

/-- The guest writes the letter A to the serial port. -/
def writesA : KvmRun := ⟨2, ⟨1, 1, 0x3f8, 1, 0⟩, fun _ => 0x41⟩

/-- A failed call after that write, which is written once more by a thread that goes on. -/
theorem stale_write_replayed :
    ¬ ToldApart .silent [.exit writesA, .failed] ∧
      (after .silent [.exit writesA, .failed]).state = .running ∧
      (after .silent [.exit writesA, .failed]).out = [0x41, 0x41] := by
  refine ⟨?_, rfl, rfl⟩
  intro told
  obtain ⟨stopped, -⟩ := told.failed [.exit writesA] [] rfl (by simp) rfl
  cases stopped

end MiniKvm.Guarantees.FailedRuns
