import MiniKvm.Source.Replies
import MiniKvm.Source.StatusArgs

/-!
# mini_kvm_status

The status client on a VM that runs (commands/status.c), with the server at the other end of its
socket: every command arrives, its handler returns, and the reply arrives whole. Of what the client
prints, the vcpus whose registers it shows.
-/
namespace MiniKvm.Source.StatusClient
open Containers StatusRegs Replies StatusArgs

variable {R S : Type*}

/-- The indices in the headings that status_handle_command_result prints. -/
def printedIndices (res : MiniKvmStatusResult R S) : List Nat :=
  (statusHandleCommandResult res).1.map Report.index

/-- The loop over the commands, with so many to go; `none` where NULL is read or a store leaves
`mem_range`. `opens`: the server can open the standard output of the client. -/
def runCommands (p : Parsing) (pid : Int32) (opens : Nat → Bool) :
    Nat → Nat → Server R S → Option (List Nat)
  | 0, _, _ => some []
  | left + 1, i, s =>
    match statusBuildCommand p i pid with
    | none => none
    | some built =>
      if ∃ store ∈ built.stores, 4 ≤ store.1 then none
      else
        let s := miniKvmStatusHandleCommand (opens i) built.cmd s
        (runCommands p pid opens left (i + 1) s).map (printedIndices s.res ++ ·)

/-- The indices that are printed, in order; `none` where status_parse_args does not return, or a store
leaves `cmds`. -/
def miniKvmStatus (fuel : Nat) (argv : List (List Char)) (errno : Int) (pid : Int32)
    (opens : Nat → Bool) (s : Server R S) : Option (List Nat) :=
  let p := statusParseArgs fuel argv (zeroed errno)
  if p.hung ∨ ∃ write ∈ p.writes, commandCount ≤ write.1 then none
  else if p.ret ≠ .success ∨ p.name = none then some []
  else runCommands p pid opens p.cmdCount 0 s

/-- The options are accepted and name a VM, so that the commands are sent. -/
structure Sends (p : Parsing) : Prop where
  returned : p.hung = false
  accepted : p.ret = .success
  named : p.name ≠ none

instance (p : Parsing) : Decidable (Sends p) :=
  decidable_of_iff (p.hung = false ∧ p.ret = .success ∧ p.name ≠ none)
    ⟨fun ⟨returned, accepted, named⟩ => ⟨returned, accepted, named⟩,
      fun sends => ⟨sends.returned, sends.accepted, sends.named⟩⟩

theorem miniKvmStatus_of_sends {R S : Type*} {fuel : Nat} {argv : List (List Char)} {errno : Int}
    (sends : Sends (statusParseArgs fuel argv (zeroed errno))) (pid : Int32) (opens : Nat → Bool)
    (s : Server R S) :
    miniKvmStatus fuel argv errno pid opens s =
      let p := statusParseArgs fuel argv (zeroed errno)
      if ∃ write ∈ p.writes, commandCount ≤ write.1 then none
      else runCommands p pid opens p.cmdCount 0 s := by
  simp only [miniKvmStatus, sends.returned, sends.accepted, sends.named, Bool.false_eq_true, false_or,
    ne_eq, not_true_eq_false, if_false]

/-! ## One command -/

/-- The VM is paused, and the kernel has the registers of its vcpus. -/
structure Paused (kvm : Kvm R S) : Prop where
  state : kvm.state = .paused
  answers : ∀ vcpu ∈ kvm.vcpus, vcpu.regs.isSome ∧ vcpu.sregs.isSome

theorem handleRegsFrom_success (mask : UInt64) {vcpus : List (VCpu R S)}
    (answers : ∀ vcpu ∈ vcpus, vcpu.regs.isSome ∧ vcpu.sregs.isSome) (index : Nat)
    (res : MiniKvmStatusResult R S) : (handleRegsFrom mask index vcpus res).ret = .success := by
  induction vcpus generalizing index res with
  | nil => rfl
  | cons vcpu rest ih =>
    obtain ⟨hasRegs, hasSregs⟩ := answers vcpu (by simp)
    obtain ⟨regs, regs_eq⟩ := Option.isSome_iff_exists.mp hasRegs
    obtain ⟨sregs, sregs_eq⟩ := Option.isSome_iff_exists.mp hasSregs
    have others := ih fun vcpu member => answers vcpu (by simp [member])
    rw [handleRegsFrom]
    split
    · simp only [regs_eq, sregs_eq]
      exact others _ _
    · exact others _ _

/-- The three commands of the status client. -/
def Queries (type : CommandType) : Prop := type = .showState ∨ type = .showRegs ∨ type = .dumpMem

section Command

variable {s : Server R S} {cmd : MiniKvmStatusCommand}

theorem kvm_kept (queries : Queries cmd.type) (opens : Bool) :
    (miniKvmStatusHandleCommand opens cmd s).kvm = s.kvm := by
  simp only [miniKvmStatusHandleCommand, handlers]
  rcases queries with type | type | type
  · simp only [type, statusHandleCmdState]
  · simp only [type, Replies.statusHandleRegs]
  · simp only [type, statusHandleDumpMem]
    split_ifs <;> rfl

/-- A SHOW_REGS has every vcpu printed that it selects, of the 64 there may be; the other commands have
none. -/
theorem mem_printedIndices (paused : Paused s.kvm) (opens : Bool) (i : Nat) :
    i ∈ printedIndices (miniKvmStatusHandleCommand opens cmd s).res ↔
      cmd.type = .showRegs ∧ i < miniKvmMaxVcpus ∧ cmd.vcpus.toNat.testBit i = true := by
  by_cases shows : cmd.type = .showRegs
  · have success : (miniKvmStatusHandleCommand opens cmd s).res.error = .success := by
      simp only [miniKvmStatusHandleCommand, handlers, shows, Replies.statusHandleRegs,
        StatusRegs.statusHandleRegs, paused.state, if_true]
      exact handleRegsFrom_success _ paused.answers _ _
    have mask : (miniKvmStatusHandleCommand opens cmd s).res.vcpus = cmd.vcpus := rfl
    rw [printedIndices, statusHandleCommandResult, if_pos ⟨success, shows⟩, printRegs, mask]
    simp only [List.map_map, List.mem_map, List.mem_filter, List.mem_finRange, true_and, shows]
    constructor
    · rintro ⟨j, selected, rfl⟩
      exact ⟨j.isLt, (vcpuSelected_of_lt j.isLt).symm.trans selected⟩
    · rintro ⟨inside, selected⟩
      exact ⟨⟨i, inside⟩, (vcpuSelected_of_lt inside).trans selected, rfl⟩
  · have other : (miniKvmStatusHandleCommand opens cmd s).res.cmdType ≠ .showRegs := shows
    rw [printedIndices, statusHandleCommandResult, if_neg fun both => other both.2]
    simp [shows]

end Command

/-! ## All commands -/

section Commands

variable {p : Parsing} {pid : Int32} {opens : Nat → Bool} {types : List CommandType} {s : Server R S}

theorem statusBuildCommand_query (counts : p.Counts types) {i : Nat} (inside : i < types.length)
    (queries : Queries types[i]) (pid : Int32)
    (room : types[i] = .dumpMem → ∃ list values, p.memRange = some list ∧ list.Holds values ∧
      values.length ≤ 4) :
    ∃ built, statusBuildCommand p i pid = some built ∧ built.cmd.type = types[i] ∧
      (∀ store ∈ built.stores, store.1 < 4) ∧
      (types[i] = .showRegs → built.cmd.vcpus = p.vcpus) := by
  obtain ⟨values, range⟩ : ∃ values : List UInt64, types[i] = .dumpMem →
      ∃ list, p.memRange = some list ∧ list.Holds values ∧ values.length ≤ 4 := by
    by_cases dump : types[i] = .dumpMem
    · obtain ⟨list, values, held⟩ := room dump
      exact ⟨values, fun _ => ⟨list, held⟩⟩
    · exact ⟨[], fun is => absurd is dump⟩
  obtain ⟨stores, builds, inRange⟩ := statusBuildCommand_eq counts inside pid range
  refine ⟨_, builds, ?_, inRange, fun regs => ?_⟩
  · rcases queries with type | type | type <;> rw [type] <;> rfl
  · rw [regs]
    rfl

/-- The commands from the `i`-th on, where `mem_range` has room for the numbers: every one is sent, and
the selected vcpus are printed if one of them is SHOW_REGS. -/
theorem runCommands_some (pid : Int32) (opens : Nat → Bool) (counts : p.Counts types)
    (queries : ∀ type ∈ types, Queries type)
    (room : .dumpMem ∈ types → ∃ list values, p.memRange = some list ∧ list.Holds values ∧
      values.length ≤ 4)
    {left i : Nat} (rest : i + left = types.length) (paused : Paused s.kvm) :
    ∃ printed, runCommands p pid opens left i s = some printed ∧ ∀ j, j ∈ printed ↔
      .showRegs ∈ types.drop i ∧ j < miniKvmMaxVcpus ∧ p.vcpus.toNat.testBit j = true := by
  induction left generalizing i s with
  | zero =>
    refine ⟨[], rfl, ?_⟩
    rw [List.drop_eq_nil_of_le (by omega)]
    simp
  | succ left ih =>
    have inside : i < types.length := by omega
    obtain ⟨built, builds, type, stays, selects⟩ : ∃ built, statusBuildCommand p i pid = some built ∧
        built.cmd.type = types[i] ∧ (∀ store ∈ built.stores, store.1 < 4) ∧
        (types[i] = .showRegs → built.cmd.vcpus = p.vcpus) :=
      statusBuildCommand_query counts inside (queries _ (List.getElem_mem inside)) pid fun dump =>
        room (dump ▸ List.getElem_mem inside)
    have next : Paused (miniKvmStatusHandleCommand (opens i) built.cmd s).kvm := by
      rw [kvm_kept (type ▸ queries _ (List.getElem_mem inside))]
      exact paused
    obtain ⟨printed, others, mem⟩ := ih (i := i + 1) (by omega) next
    have bounded : ¬ ∃ store ∈ built.stores, 4 ≤ store.1 := by
      rintro ⟨store, member, outside⟩
      exact absurd (stays store member) (Nat.not_lt.mpr outside)
    refine ⟨_, by simp only [runCommands, builds, if_neg bounded, others, Option.map_some]; rfl, ?_⟩
    intro j
    rw [List.mem_append, mem_printedIndices paused, mem, List.drop_eq_getElem_cons inside,
      List.mem_cons, type]
    constructor
    · rintro (⟨shows, small, selected⟩ | ⟨later, small, selected⟩)
      · exact ⟨.inl shows.symm, small, selects shows ▸ selected⟩
      · exact ⟨.inr later, small, selected⟩
    · rintro ⟨shows | later, small, selected⟩
      · exact .inl ⟨shows.symm, small, selects shows.symm ▸ selected⟩
      · exact .inr ⟨later, small, selected⟩

/-- A DUMP_MEM with more than four numbers is not sent. -/
theorem runCommands_none (counts : p.Counts types) {list : Vec} {values : List UInt64}
    (held : p.memRange = some list) (holds : list.Holds values) (many : 4 < values.length)
    {left i : Nat} (rest : i + left = types.length) (dump : .dumpMem ∈ types.drop i) :
    runCommands p pid opens left i s = none := by
  induction left generalizing i s with
  | zero =>
    rw [List.drop_eq_nil_of_le (by omega)] at dump
    cases dump
  | succ left ih =>
    have inside : i < types.length := by omega
    rw [List.drop_eq_getElem_cons inside, List.mem_cons] at dump
    rw [runCommands]
    rcases dump with here | later
    · have type : p.cmd i = .dumpMem := by
        rw [counts.cmd, List.getElem?_eq_getElem inside, ← here]
        rfl
      rw [statusBuildCommand, type, held]
      exact if_pos (exists_store holds many)
    · split
      · rfl
      · split
        · rfl
        · exact congrArg (Option.map _) (ih (by omega) later)

end Commands

end MiniKvm.Source.StatusClient
