import MiniKvm.Source.StatusRegs

/-!
# Are register reports per vcpu?

The client prints slot `i` as the registers of vcpu `i`. The server passes `&res->regs` and
`&res->sregs` to every ioctl, so each selected vcpu lands in slot 0, and the last one stays there.
-/
namespace MiniKvm.Guarantees.RegisterReports
open Source Source.StatusRegs

variable {R S : Type*}

/-- Slot `i` of the reply holds the registers of vcpu `i`. -/
def Holds (vcpus : List (VCpu R S)) (res : MiniKvmStatusResult R S) (i : Nat) : Prop :=
  ∃ regs sregs, vcpus[i]? = some ⟨some regs, some sregs⟩ ∧ res.regs[i]? = some regs ∧
    res.sregs[i]? = some sregs

/-- A SHOW_REGS that has been handled reports every selected vcpu in its own slot. -/
structure PerVcpu (vcpus : List (VCpu R S)) (cmd : MiniKvmStatusCommand) (h : Handled R S) :
    Prop where
  holds : ∀ i < vcpus.length, cmd.vcpus.toNat.testBit i = true → Holds vcpus h.res i
  bounded : ∀ a ∈ h.accesses ++ (statusHandleCommandResult (replyToRegs cmd h)).2,
    a.index < miniKvmMaxVcpus
  unselected : ∀ i, cmd.vcpus.toNat.testBit i = false →
    .regs i ∉ h.accesses ∧ .sregs i ∉ h.accesses

/-- At most 64 vcpus; and where one is selected, vcpu 0 is, the last one selected has the registers
of vcpu 0, and the slots of the others hold their registers already. -/
structure Harmless (vcpus : List (VCpu R S)) (mask : UInt64) (res : MiniKvmStatusResult R S) :
    Prop where
  few : vcpus.length ≤ miniKvmMaxVcpus
  first : ∀ i < vcpus.length, mask.toNat.testBit i = true → mask.toNat.testBit 0 = true
  last : ∀ i < vcpus.length, mask.toNat.testBit i = true →
    (∀ j < vcpus.length, mask.toNat.testBit j = true → j ≤ i) → vcpus[i]? = vcpus[0]?
  others : ∀ i < vcpus.length, mask.toNat.testBit i = true → i ≠ 0 → Holds vcpus res i

/-! ## The loop -/

/-- What the loop leaves when it runs to its end: slot 0 of the last vcpu selected, and the other
slots as they were. -/
structure Filled (mask : UInt64) (k : Nat) (vcpus : List (VCpu R S)) (res : MiniKvmStatusResult R S)
    (h : Handled R S) : Prop where
  kept : ∀ i, i ≠ 0 → h.res.regs[i]? = res.regs[i]? ∧ h.res.sregs[i]? = res.sregs[i]?
  untouched : (∀ i < vcpus.length, vcpuSelected mask (k + i) = false) →
    h.res.regs[0]? = res.regs[0]? ∧ h.res.sregs[0]? = res.sregs[0]?
  last : ∀ i < vcpus.length, vcpuSelected mask (k + i) = true →
    (∀ j < vcpus.length, vcpuSelected mask (k + j) = true → j ≤ i) →
    ∃ regs sregs, vcpus[i]? = some ⟨some regs, some sregs⟩ ∧ h.res.regs[0]? = some regs ∧
      h.res.sregs[0]? = some sregs
  shifts : ∀ i, .shift i ∈ h.accesses ↔ k ≤ i ∧ i < k + vcpus.length
  slots : ∀ i,
    (.regs i ∈ h.accesses ↔ i = 0 ∧ ∃ j < vcpus.length, vcpuSelected mask (k + j) = true) ∧
    (.sregs i ∈ h.accesses ↔ i = 0 ∧ ∃ j < vcpus.length, vcpuSelected mask (k + j) = true)

/-- The vcpus of a list, counted from `k`: the first, or one of the others, counted from `k + 1`. -/
theorem exists_cons_iff {P : Nat → Prop} {k : Nat} (v : VCpu R S) (rest : List (VCpu R S)) :
    (∃ j < (v :: rest).length, P (k + j)) ↔ P k ∨ ∃ j < rest.length, P (k + 1 + j) := by
  constructor
  · rintro ⟨_ | j, bound, holds⟩
    · exact .inl holds
    · exact .inr ⟨j, by simpa using bound, by rwa [Nat.add_right_comm, Nat.add_assoc]⟩
  · rintro (holds | ⟨j, bound, holds⟩)
    · exact ⟨0, by simp, holds⟩
    · exact ⟨j + 1, by simpa using bound, by rwa [Nat.add_right_comm, Nat.add_assoc] at holds⟩

theorem filled_skip {mask : UInt64} {k : Nat} {v : VCpu R S} {rest : List (VCpu R S)}
    {res : MiniKvmStatusResult R S} {h : Handled R S} (unselected : vcpuSelected mask k = false)
    (later : Filled mask (k + 1) rest res h) :
    Filled mask k (v :: rest) res (h.preceded [.shift k]) := by
  constructor
  · exact later.kept
  · intro none
    refine later.untouched fun i bound => ?_
    have := none (i + 1) (by simpa using bound)
    rwa [← Nat.add_assoc, Nat.add_right_comm] at this
  · rintro (_ | i) bound selected top
    · simp [unselected] at selected
    · rw [← Nat.add_assoc, Nat.add_right_comm] at selected
      refine later.last i (by simpa using bound) selected fun j bound' selected' => ?_
      have := top (j + 1) (by simpa using bound') (by rwa [← Nat.add_assoc, Nat.add_right_comm])
      omega
  · intro i
    simp only [Handled.preceded, List.mem_append, List.mem_singleton, Access.shift.injEq,
      later.shifts, List.length_cons]
    omega
  · intro i
    have slots := later.slots i
    simp only [Handled.preceded, exists_cons_iff (P := fun j => vcpuSelected mask j = true),
      unselected]
    simpa using slots

theorem filled_write {mask : UInt64} {k : Nat} {regs : R} {sregs : S} {rest : List (VCpu R S)}
    {res written : MiniKvmStatusResult R S} {h : Handled R S} (selected : vcpuSelected mask k = true)
    (regs_eq : written.regs = res.regs.set 0 regs (by decide))
    (sregs_eq : written.sregs = res.sregs.set 0 sregs (by decide))
    (later : Filled mask (k + 1) rest written h) :
    Filled mask k (⟨some regs, some sregs⟩ :: rest) res
      (h.preceded [.shift k, .regs 0, .sregs 0]) := by
  constructor
  · intro i other
    obtain ⟨keptRegs, keptSregs⟩ := later.kept i other
    simp only [Handled.preceded, keptRegs, keptSregs, regs_eq, sregs_eq]
    exact ⟨Vector.getElem?_set_ne _ (Ne.symm other), Vector.getElem?_set_ne _ (Ne.symm other)⟩
  · intro none
    simpa [selected] using none 0 (by simp)
  · rintro (_ | i) bound _ top
    · -- the first is the last one selected, and nothing is written after it
      obtain ⟨keptRegs, keptSregs⟩ := later.untouched fun j bound' => by
        by_contra selected'
        have := top (j + 1) (by simpa using bound')
          (by rw [← Nat.add_assoc, Nat.add_right_comm]; simpa using selected')
        omega
      refine ⟨regs, sregs, rfl, ?_, ?_⟩
      · exact keptRegs.trans (by rw [regs_eq]; simp)
      · exact keptSregs.trans (by rw [sregs_eq]; simp)
    · next selected' =>
      rw [← Nat.add_assoc, Nat.add_right_comm] at selected'
      refine later.last i (by simpa using bound) selected' fun j bound' selected'' => ?_
      have := top (j + 1) (by simpa using bound') (by rwa [← Nat.add_assoc, Nat.add_right_comm])
      omega
  · intro i
    simp only [Handled.preceded, List.mem_append, List.mem_cons, Access.shift.injEq,
      later.shifts, List.length_cons]
    simp
    omega
  · intro i
    have slots := later.slots i
    simp only [Handled.preceded, exists_cons_iff (P := fun j => vcpuSelected mask j = true),
      selected]
    simp only [List.mem_append, List.mem_cons, slots]
    grind

theorem filled {mask : UInt64} {k : Nat} {vcpus : List (VCpu R S)} {res : MiniKvmStatusResult R S}
    (succeeds : (handleRegsFrom mask k vcpus res).ret = .success) :
    Filled mask k vcpus res (handleRegsFrom mask k vcpus res) := by
  induction vcpus generalizing k res with
  | nil => constructor <;> simp [handleRegsFrom]
  | cons vcpu rest ih =>
    unfold handleRegsFrom at succeeds ⊢
    split at succeeds
    · next selected =>
      rw [if_pos selected]
      split at succeeds
      · cases succeeds
      · next regs answered =>
        dsimp only at succeeds ⊢
        split at succeeds
        · cases succeeds
        · next sregs answered' =>
          obtain ⟨_, _⟩ := vcpu
          cases answered
          cases answered'
          exact filled_write selected rfl rfl (ih succeeds)
    · next unselected =>
      rw [if_neg unselected]
      exact filled_skip (by simpa using unselected) (ih succeeds)

/-! ## Together -/

theorem index_of_client {h : Handled R S} {cmd : MiniKvmStatusCommand} {a : Access}
    (used : a ∈ (statusHandleCommandResult (replyToRegs cmd h)).2) : a.index < miniKvmMaxVcpus := by
  unfold statusHandleCommandResult at used
  split at used
  · simp only [printRegs, List.mem_flatMap, List.mem_range, List.mem_cons] at used
    obtain ⟨i, bound, rfl | used⟩ := used
    · exact bound
    · split at used
      · simp only [List.mem_cons, List.not_mem_nil, or_false] at used
        rcases used with rfl | rfl <;> exact bound
      · simp at used
  · simp at used

theorem paused_of_success {state : VMState} {vcpus : List (VCpu R S)} {cmd : MiniKvmStatusCommand}
    {res : MiniKvmStatusResult R S}
    (succeeds : (statusHandleRegs state vcpus cmd res).ret = .success) :
    statusHandleRegs state vcpus cmd res = handleRegsFrom cmd.vcpus 0 vcpus res := by
  unfold statusHandleRegs at succeeds ⊢
  split at succeeds
  · next paused => rw [if_pos paused]
  · cases succeeds

theorem harmless_of_perVcpu {vcpus : List (VCpu R S)} {cmd : MiniKvmStatusCommand}
    {res : MiniKvmStatusResult R S} {h : Handled R S} (filled : Filled cmd.vcpus 0 vcpus res h)
    (per : PerVcpu vcpus cmd h) : Harmless vcpus cmd.vcpus res := by
  obtain ⟨kept, -, last, shifts, slots⟩ := filled
  simp only [Nat.zero_add] at last shifts slots
  have few : vcpus.length ≤ miniKvmMaxVcpus := by
    by_contra many
    have used := (shifts miniKvmMaxVcpus).mpr ⟨Nat.zero_le _, Nat.lt_of_not_le many⟩
    exact absurd (per.bounded _ (List.mem_append_left _ used)) (Nat.lt_irrefl _)
  have isSelected {i : Nat} (bound : i < vcpus.length) :
      vcpuSelected cmd.vcpus i = cmd.vcpus.toNat.testBit i :=
    vcpuSelected_of_lt (Nat.lt_of_lt_of_le bound few)
  have first (i : Nat) (bound : i < vcpus.length) (selected : cmd.vcpus.toNat.testBit i = true) :
      cmd.vcpus.toNat.testBit 0 = true := by
    by_contra unselected
    have written := (slots 0).1.mpr ⟨rfl, i, bound, (isSelected bound).trans selected⟩
    exact (per.unselected 0 (by simpa using unselected)).1 written
  refine ⟨few, first, fun i bound selected top => ?_, fun i bound selected other => ?_⟩
  · obtain ⟨regs, sregs, here, keptRegs, keptSregs⟩ := last i bound
      ((isSelected bound).trans selected)
      fun j bound' selected' => top j bound' ((isSelected bound').symm.trans selected')
    obtain ⟨regs', sregs', zero, slotRegs, slotSregs⟩ :=
      per.holds 0 (Nat.zero_lt_of_lt bound) (first i bound selected)
    rw [here, zero]
    cases keptRegs.symm.trans slotRegs
    cases keptSregs.symm.trans slotSregs
    rfl
  · obtain ⟨regs, sregs, here, slotRegs, slotSregs⟩ := per.holds i bound selected
    exact ⟨regs, sregs, here, (kept i other).1 ▸ slotRegs, (kept i other).2 ▸ slotSregs⟩

/-- Among the vcpus selected there is a last one. -/
theorem exists_last {P : Nat → Prop} [DecidablePred P] {n i : Nat} (bound : i < n) (holds : P i) :
    ∃ l < n, P l ∧ ∀ j < n, P j → j ≤ l := by
  refine ⟨Nat.findGreatest P (n - 1), ?_, Nat.findGreatest_spec (by omega) holds,
    fun j bound' holds' => Nat.le_findGreatest (by omega) holds'⟩
  have := Nat.findGreatest_le (P := P) (n - 1)
  omega

theorem perVcpu_of_harmless {vcpus : List (VCpu R S)} {cmd : MiniKvmStatusCommand}
    {res : MiniKvmStatusResult R S} {h : Handled R S} (filled : Filled cmd.vcpus 0 vcpus res h)
    (harmless : Harmless vcpus cmd.vcpus res) : PerVcpu vcpus cmd h := by
  obtain ⟨kept, -, last, shifts, slots⟩ := filled
  simp only [Nat.zero_add] at last shifts slots
  have isSelected {i : Nat} (bound : i < vcpus.length) :
      vcpuSelected cmd.vcpus i = cmd.vcpus.toNat.testBit i :=
    vcpuSelected_of_lt (Nat.lt_of_lt_of_le bound harmless.few)
  refine ⟨fun i bound selected => ?_, fun a used => ?_, fun i unselected => ?_⟩
  · by_cases isZero : i = 0
    · subst isZero
      obtain ⟨l, bound', selected', top⟩ :=
        exists_last (P := fun i => cmd.vcpus.toNat.testBit i = true) bound selected
      obtain ⟨regs, sregs, here, slotRegs, slotSregs⟩ := last l bound'
        ((isSelected bound').trans selected')
        fun j bound'' selected'' => top j bound'' ((isSelected bound'').symm.trans selected'')
      have zero := harmless.last l bound' selected' top
      exact ⟨regs, sregs, zero.symm.trans here, slotRegs, slotSregs⟩
    · obtain ⟨regs, sregs, here, slotRegs, slotSregs⟩ := harmless.others i bound selected isZero
      exact ⟨regs, sregs, here, (kept i isZero).1.trans slotRegs, (kept i isZero).2.trans slotSregs⟩
  · rcases List.mem_append.mp used with server | client
    · cases a with
      | shift i => exact Nat.lt_of_lt_of_le ((shifts i).mp server).2 harmless.few
      | regs i => exact ((slots i).1.mp server).1 ▸ (by decide : 0 < miniKvmMaxVcpus)
      | sregs i => exact ((slots i).2.mp server).1 ▸ (by decide : 0 < miniKvmMaxVcpus)
    · exact index_of_client client
  · have unwritten : ¬ (i = 0 ∧ ∃ j < vcpus.length, vcpuSelected cmd.vcpus j = true) := by
      rintro ⟨rfl, j, bound, selected⟩
      simp [harmless.first j bound ((isSelected bound).symm.trans selected)] at unselected
    exact ⟨(slots i).1.not.mpr unwritten, (slots i).2.not.mpr unwritten⟩

/-- A SHOW_REGS that succeeds reports its vcpus in their own slots exactly where slot 0 is the right
one for each of them, or is made to look so. -/
theorem perVcpu_iff_harmless (state : VMState) (vcpus : List (VCpu R S))
    (cmd : MiniKvmStatusCommand) (res : MiniKvmStatusResult R S)
    (succeeds : (statusHandleRegs state vcpus cmd res).ret = .success) :
    PerVcpu vcpus cmd (statusHandleRegs state vcpus cmd res) ↔ Harmless vcpus cmd.vcpus res := by
  have loop := paused_of_success succeeds
  rw [loop] at succeeds ⊢
  exact ⟨harmless_of_perVcpu (filled succeeds), perVcpu_of_harmless (filled succeeds)⟩

def askRegs (mask : UInt64) : MiniKvmStatusCommand := { type := .showRegs, vcpus := mask }

def blankRegs : MiniKvmStatusResult Nat Nat :=
  ⟨.none, .success, 0, .replicate _ 0, .replicate _ 0, .shutdown⟩

theorem soleVcpu_perVcpu : PerVcpu [⟨some 7, some 8⟩] (askRegs 1)
    (statusHandleRegs .paused [⟨some 7, some 8⟩] (askRegs 1) blankRegs) := by
  refine (perVcpu_iff_harmless .paused [⟨some 7, some 8⟩] (askRegs 1) blankRegs rfl).mpr ?_
  constructor
  · decide
  · decide
  · intro i bound _ _
    rw [Nat.lt_one_iff.mp bound]
  · intro i bound _ other
    exact absurd (Nat.lt_one_iff.mp bound) other

/-- Both vcpus of two are selected, and slot 1 stays blank. -/
theorem secondVcpu_not_perVcpu : ¬ ∀ (vcpus : List (VCpu Nat Nat)) (cmd : MiniKvmStatusCommand)
    (res : MiniKvmStatusResult Nat Nat), (statusHandleRegs .paused vcpus cmd res).ret = .success →
    PerVcpu vcpus cmd (statusHandleRegs .paused vcpus cmd res) := by
  intro claimed
  have per := claimed [⟨some 7, some 8⟩, ⟨some 9, some 10⟩] (askRegs 3) blankRegs rfl
  obtain ⟨regs, sregs, here, slot, -⟩ := per.holds 1 (by decide) (by decide)
  cases here
  have blank : (statusHandleRegs .paused [⟨some 7, some 8⟩, ⟨some 9, some 10⟩] (askRegs 3)
      blankRegs).res.regs[1]? = some 0 := by decide
  rw [blank] at slot
  cases slot

end MiniKvm.Guarantees.RegisterReports
