import MiniKvm.Source.VmFiles

/-!
# Do server and clients agree on whether a VM is running?

init_filesystem starts from pid 0 and does not look at what read returns; mini_kvm_check_vm starts
from pid -1 and gives up on an empty pidfile. The two differ on pidfiles of less than four bytes.
-/
namespace MiniKvm.Guarantees.RunningCheck
open Lib Source Source.VmFiles

/-- The server refuses the name as running exactly where a client finds it running. -/
def Agree (calls : FsCalls) (kill : Int32 → Bool) (self : Int32) (dir : VmDir) : Prop :=
  (initFilesystem calls kill self dir).1 = .error .alreadyRunning ↔
    miniKvmCheckVm kill dir = MiniKVMError.success.code

/-- A pidfile that is there is complete; or it is empty and nobody answers to pid 0; or it has one to
three bytes, and the pids with zeros and with ones above them are both running or both not. -/
def Readable (kill : Int32 → Bool) : VmDir → Prop
  | .missing | .present none => True
  | .present (some content) => 4 ≤ content.length ∨ (content = [] ∧ kill 0 = false) ∨
      (content ≠ [] ∧ kill (readInt 0 content) = kill (readInt (-1) content))

variable {calls : FsCalls} {kill : Int32 → Bool} {self : Int32} {content : List UInt8}

/-! ## The two checks -/

theorem writePidfile_starts (pidfile : Option (List UInt8)) :
    (writePidfile calls self pidfile).1 ≠ .error .alreadyRunning := by
  unfold writePidfile
  split <;> simp

theorem refuses_iff :
    (initFilesystem calls kill self (.present (some content))).1 = .error .alreadyRunning ↔
      kill (readInt 0 content) = true := by
  simp only [initFilesystem]
  split
  · next alive => simp [alive]
  · next dead => simp [dead, writePidfile_starts]

theorem finds_iff : miniKvmCheckVm kill (.present (some content)) = MiniKVMError.success.code ↔
    content ≠ [] ∧ kill (readInt (-1) content) = true := by
  have empty : min content.length 4 ≤ 0 ↔ content = [] := by
    rw [← List.length_eq_zero_iff]
    omega
  simp only [miniKvmCheckVm, empty]
  split
  · next failed =>
    refine ⟨fun success => absurd success (by decide), fun found => ?_⟩
    rcases failed with nothing | dead
    · exact absurd nothing found.1
    · exact absurd found.2 dead
  · next found =>
    rw [not_or, not_not] at found
    exact ⟨fun _ => found, fun _ => rfl⟩

theorem agree_absent {dir : VmDir} (absent : dir = .missing ∨ dir = .present none) :
    Agree calls kill self dir := by
  have starts : (initFilesystem calls kill self dir).1 ≠ .error .alreadyRunning := by
    rcases absent with rfl | rfl
    · simp only [initFilesystem]
      split
      · exact writePidfile_starts none
      · simp
    · exact writePidfile_starts none
  have unfound : miniKvmCheckVm kill dir ≠ MiniKVMError.success.code := by
    have failed : (-1 : Int32) ≠ MiniKVMError.success.code := by decide
    rcases absent with rfl | rfl <;> exact failed
  exact ⟨fun refused => absurd refused starts, fun found => absurd found unfound⟩

/-- Server and client agree exactly where the pidfile is complete, or its bytes lead to the same
answer both ways. -/
theorem agree_iff_readable (calls : FsCalls) (kill : Int32 → Bool) (self : Int32) (dir : VmDir) :
    Agree calls kill self dir ↔ Readable kill dir := by
  match dir with
  | .missing => exact ⟨fun _ => trivial, fun _ => agree_absent (.inl rfl)⟩
  | .present none => exact ⟨fun _ => trivial, fun _ => agree_absent (.inr rfl)⟩
  | .present (some content) =>
    rw [Agree, refuses_iff, finds_iff, Readable]
    by_cases empty : content = []
    · subst empty
      simp [readInt_nil]
    · by_cases full : 4 ≤ content.length
      · simp [empty, full, readInt_of_length full]
      · rw [Bool.eq_iff_iff (a := kill (readInt 0 content))]
        simp [empty, full]

/-- An empty pidfile, which a crash between its truncation and the write of the pid leaves: pid 0 is
the process group of the caller, and `kill(0, 0)` succeeds. -/
theorem emptyPidfile_not_agree : ¬ ∀ (calls : FsCalls) (kill : Int32 → Bool) (self : Int32)
    (dir : VmDir), Agree calls kill self dir := by
  intro claimed
  have agree := claimed ⟨true, true⟩ (fun pid => decide (pid = 0)) 7 (.present (some []))
  exact absurd (agree.mp rfl) (by decide)

end MiniKvm.Guarantees.RunningCheck
