import MiniKvm.Guarantees.CpuMask
import MiniKvm.Guarantees.StatusArrays
import MiniKvm.Source.StatusClient

/-!
# The vcpus that are shown

mini_kvm_status with -r on a paused VM of up to 64 vcpus. The list of -v goes to a mask by the
remainders modulo 32 of its ids, a missing list to `!0`, which is 1; the server looks at the mask up to
the number of its vcpus, but sends all of it back, and the client prints by all of its 64 bits.

* what a client that sends its commands has before it sends them (`Ready`, `ready`);
* what it prints (`miniKvmStatus_some`, `miniKvmStatus_none`);
* when these are the vcpus asked for (`showsAsked_iff`, `secondVcpu_not_shown`).
-/
namespace MiniKvm.Guarantees.SelectedVcpus
open Source Source.Containers Source.IntLists Source.Replies Source.StatusArgs Source.StatusClient
open CpuMask StatusArrays

variable {R S : Type*}

/-- The vcpus that are asked for: those in the lists of -v, or without a list all of them. -/
def Asked (options : List StatusOption) (n i : Nat) : Prop :=
  i < n ∧ (options.filterMap StatusOption.vcpusText = [] ∨ ∃ id ∈ idsOf options, id.toNat = i)

/-- The client comes to its end, and prints the registers of the vcpus that are asked for. -/
def ShowsAsked (argv : List (List Char)) (errno : Int) (pid : Int32) (opens : Nat → Bool)
    (s : Server R S) : Prop :=
  ∃ fuel printed, miniKvmStatus fuel argv errno pid opens s = some printed ∧
    ∀ i, i ∈ printed ↔ Asked (optionsOf argv) s.kvm.vcpus.length i

/-- The remainders modulo 32 of the ids are ids of the list, and of vcpus there are; a remainder of 31
comes with all of 31 to 63, on a VM that has them; and without one, no id of a vcpu is from 32 on. -/
structure Selects (ids : List Nat) (n : Nat) : Prop where
  folded : ∀ id ∈ ids, id % 32 ∈ ids ∧ id % 32 < n
  signed : (∃ id ∈ ids, id % 32 = 31) → n = miniKvmMaxVcpus ∧
    ∀ bit, 31 ≤ bit → bit < miniKvmMaxVcpus → bit ∈ ids
  low : (∀ id ∈ ids, id % 32 ≠ 31) → ∀ id ∈ ids, id < n → id < 32

/-- The commands have room in `cmds`, and the numbers of the last -m in `mem_range`. -/
structure Room (options : List StatusOption) : Prop where
  few : (options.filterMap StatusOption.added).length ≤ commandCount
  short : ∀ text, (options.filterMap StatusOption.memText).getLast? = some text →
    (numbersOf text).length ≤ 4

/-- There is room, and the mask of the lists, or without a list that of vcpu 0, is what is asked for. -/
structure Shown (options : List StatusOption) (n : Nat) : Prop where
  room : Room options
  alone : options.filterMap StatusOption.vcpusText = [] → n = 1
  listed : options.filterMap StatusOption.vcpusText ≠ [] → idsOf options ≠ [] ∧
    Selects ((idsOf options).map UInt64.toNat) n

/-! ## The mask -/

theorem withIds_ne_zero {ids : List UInt64} (some : ids ≠ []) : withIds 0 ids ≠ 0 := by
  obtain ⟨id, member⟩ := List.exists_mem_of_ne_nil ids some
  intro zero
  have bit : (withIds 0 ids).toNat.testBit (id.toNat % 32) = true :=
    (testBit_withIds 0 ids _).mpr (.inr ⟨id, member, (testBit_cpuBit id _).mpr (.inl rfl)⟩)
  rw [zero] at bit
  simp at bit

/-- What the printing loop makes of the mask, and what is asked for, agree on these lists. -/
theorem selects_iff (ids : List UInt64) {n : Nat} (most : n ≤ miniKvmMaxVcpus) :
    (∀ i, (i < miniKvmMaxVcpus ∧ (withIds 0 ids).toNat.testBit i = true) ↔
        (i < n ∧ ∃ id ∈ ids, id.toNat = i)) ↔ Selects (ids.map UInt64.toNat) n := by
  have set (i : Nat) : (withIds 0 ids).toNat.testBit i = true ↔
      ∃ id ∈ ids.map UInt64.toNat, id % 32 = i ∨ id % 32 = 31 ∧ 31 ≤ i ∧ i < 64 := by
    rw [testBit_withIds]
    simp [testBit_cpuBit]
  have listed (i : Nat) : (∃ id ∈ ids, id.toNat = i) ↔ i ∈ ids.map UInt64.toNat :=
    List.mem_map.symm
  simp only [set, listed]
  generalize ids.map UInt64.toNat = ids
  simp only [miniKvmMaxVcpus] at most ⊢
  constructor
  · intro same
    refine ⟨fun id member => ?_, ?_, ?_⟩
    · have bit := (same (id % 32)).mp ⟨by omega, id, member, .inl rfl⟩
      exact ⟨bit.2, bit.1⟩
    · rintro ⟨id, member, sign⟩
      have all (bit : Nat) (from31 : 31 ≤ bit) (below : bit < 64) : bit < n ∧ bit ∈ ids :=
        (same bit).mp ⟨below, id, member, .inr ⟨sign, from31, below⟩⟩
      have last := (all 63 (by decide) (by decide)).1
      exact ⟨by simp only [miniKvmMaxVcpus]; omega, fun bit from31 below => (all bit from31 below).2⟩
    · intro unsigned id member inside
      obtain ⟨-, other, member', folds | ⟨sign, -⟩⟩ := (same id).mpr ⟨inside, member⟩
      · omega
      · exact absurd sign (unsigned other member')
  · rintro ⟨folded, signed, low⟩ i
    constructor
    · rintro ⟨below, id, member, folds | ⟨sign, from31, -⟩⟩
      · obtain ⟨there, inside⟩ := folded id member
        rw [folds] at there inside
        exact ⟨inside, there⟩
      · obtain ⟨whole, all⟩ := signed ⟨id, member, sign⟩
        exact ⟨by rwa [whole], all i from31 below⟩
    · rintro ⟨inside, member⟩
      refine ⟨by omega, ?_⟩
      by_cases small : i < 32
      · exact ⟨i, member, .inl (by omega)⟩
      · by_cases sign : ∃ id ∈ ids, id % 32 = 31
        · obtain ⟨id, member', sign⟩ := sign
          exact ⟨id, member', .inr ⟨sign, by omega, by omega⟩⟩
        · exact absurd (low (fun id member' eq => sign ⟨id, member', eq⟩) i member inside) small

/-! ## The arguments -/

/-- What status_parse_args leaves of options with -r that are all accepted. -/
structure Ready (p : Parsing) (options : List StatusOption) : Prop where
  counts : p.Counts (options.filterMap StatusOption.added)
  vcpus : p.vcpus = if idsOf options = [] then 1 else withIds 0 (idsOf options)
  memRange : ∀ text, (options.filterMap StatusOption.memText).getLast? = some text →
    ∃ list, p.memRange = some list ∧ list.Holds (numbersOf text)

section Arguments

variable {fuel : Nat} {argv : List (List Char)} {errno : Int} {options : List StatusOption}

theorem mem_added_regs (member : .regs ∈ options) :
    .showRegs ∈ options.filterMap StatusOption.added :=
  List.mem_filterMap.mpr ⟨_, member, rfl⟩

theorem queries_of_added {type : CommandType}
    (member : type ∈ options.filterMap StatusOption.added) : Queries type := by
  obtain ⟨o, -, adds⟩ := List.mem_filterMap.mp member
  cases o with
  | regs => exact .inr (.inl (Option.some.inj adds).symm)
  | mem => exact .inr (.inr (Option.some.inj adds).symm)
  | _ => cases adds

theorem dump_added_iff :
    .dumpMem ∈ options.filterMap StatusOption.added ↔
      options.filterMap StatusOption.memText ≠ [] := by
  constructor
  · intro member
    obtain ⟨o, inside, adds⟩ := List.mem_filterMap.mp member
    cases o with
    | mem text => exact List.ne_nil_of_mem (mem_texts_iff.mpr inside)
    | regs => cases adds
    | _ => cases adds
  · intro some
    obtain ⟨text, member⟩ := List.exists_mem_of_ne_nil _ some
    exact List.mem_filterMap.mpr ⟨_, mem_texts_iff.mp member, rfl⟩

/-- Behind the loop there are commands, and only the mask is looked at. -/
theorem finish_eq {p : Parsing} {types : List CommandType} (counts : p.Counts types)
    (some : types ≠ []) (regs : p.regs = true) :
    p.finish = if p.vcpus = 0 then { p with vcpus := 1 } else p := by
  have count : p.cmdCount ≠ 0 := by
    rw [counts.count]
    exact mt List.length_eq_zero_iff.mp some
  simp only [Parsing.finish, regs, and_true]
  split_ifs <;> rfl

theorem ready (sends : Sends (statusParseArgs fuel argv (StatusArgs.zeroed errno)))
    (regs : .regs ∈ optionsOf argv) :
    Ready (statusParseArgs fuel argv (StatusArgs.zeroed errno)) (optionsOf argv) := by
  have goesOn := goesOn_of_success sends.accepted sends.returned
  have returned : (handleAll fuel (StatusArgs.zeroed errno) (optionsOf argv)).hung = false :=
    (statusParseArgs_kept fuel argv (StatusArgs.zeroed errno)).2.1.symm.trans sends.returned
  have counts := (counts_zeroed errno).handleAll fuel (optionsOf argv)
  rw [List.nil_append, handled_of_goesOn goesOn] at counts
  have selected := vcpus_handleAll (running_zeroed errno) goesOn
  have range := (memRange_handleAll (running_zeroed errno) goesOn).1
  have asks : (handleAll fuel (StatusArgs.zeroed errno) (optionsOf argv)).regs = true := by
    refine handleAll_of_mem (P := fun p => p.regs = true) (fun p o set => ?_) (fun _ => rfl) regs
      goesOn
    cases o with
    | regs => rfl
    | vcpus optarg =>
      simp only [handle, Parsing.storeVcpus]
      split <;> exact set
    | name | mem | fail | other => exact set
  have done := finish_eq counts (List.ne_nil_of_mem (mem_added_regs regs)) asks
  simp only [statusParseArgs, returned, Bool.false_eq_true, if_false]
  rw [done]
  generalize handleAll fuel (StatusArgs.zeroed errno) (optionsOf argv) = p at counts selected range
  by_cases none : idsOf (optionsOf argv) = []
  · rw [if_pos (by rw [selected, none]; rfl)]
    exact ⟨⟨counts.count, counts.writes⟩, by rw [if_pos none], range⟩
  · rw [if_neg (by rw [selected]; exact withIds_ne_zero none)]
    exact ⟨counts, by rw [if_neg none]; exact selected, range⟩

/-- Two clients that return have parsed the same. -/
theorem statusParseArgs_unique {fuel' : Nat} {p : Parsing}
    (returns : (statusParseArgs fuel argv p).hung = false)
    (returns' : (statusParseArgs fuel' argv p).hung = false) :
    statusParseArgs fuel argv p = statusParseArgs fuel' argv p := by
  rw [(statusParseArgs_kept _ _ p).2.1] at returns returns'
  simp only [statusParseArgs]
  rw [← handleAll_mono (Nat.le_max_left fuel fuel') returns,
    ← handleAll_mono (Nat.le_max_right fuel fuel') returns']

end Arguments

/-! ## The client -/

section Client

variable {fuel : Nat} {argv : List (List Char)} {errno : Int} {pid : Int32} {opens : Nat → Bool}
  {s : Server R S}

/-- Where there is room, the mask is printed. -/
theorem miniKvmStatus_some (pid : Int32) (opens : Nat → Bool)
    (sends : Sends (statusParseArgs fuel argv (StatusArgs.zeroed errno)))
    (regs : .regs ∈ optionsOf argv) (paused : Paused s.kvm) (room : Room (optionsOf argv)) :
    ∃ printed, miniKvmStatus fuel argv errno pid opens s = some printed ∧
      ∀ i, i ∈ printed ↔ i < miniKvmMaxVcpus ∧
        (statusParseArgs fuel argv (StatusArgs.zeroed errno)).vcpus.toNat.testBit i = true := by
  have made := ready sends regs
  rw [miniKvmStatus_of_sends sends]
  generalize statusParseArgs fuel argv (StatusArgs.zeroed errno) = p at made
  obtain ⟨-, inside⟩ := inside_of_length made.counts room.few
  have four (dump : .dumpMem ∈ (optionsOf argv).filterMap StatusOption.added) :
      ∃ list values, p.memRange = some list ∧ list.Holds values ∧ values.length ≤ 4 := by
    obtain ⟨text, last⟩ := Option.isSome_iff_exists.mp
      (List.getLast?_isSome.mpr (dump_added_iff.mp dump))
    obtain ⟨list, held, holds⟩ := made.memRange text last
    exact ⟨list, _, held, holds, room.short text last⟩
  obtain ⟨printed, runs, mem⟩ := runCommands_some pid opens made.counts
    (fun _ => queries_of_added) four (Nat.zero_add _) paused
  refine ⟨printed, ?_, fun i => ?_⟩
  · have bounded : ¬ ∃ write ∈ p.writes, commandCount ≤ write.1 := by
      rintro ⟨write, member, outside⟩
      exact absurd (inside write member) (Nat.not_lt.mpr outside)
    simp only [if_neg bounded]
    rw [made.counts.count, runs]
  · rw [mem i, List.drop_zero]
    exact and_iff_right (mem_added_regs regs)

/-- Where there is none, the client leaves its arrays. -/
theorem miniKvmStatus_none
    (sends : Sends (statusParseArgs fuel argv (StatusArgs.zeroed errno)))
    (regs : .regs ∈ optionsOf argv) (crowded : ¬ Room (optionsOf argv)) :
    miniKvmStatus fuel argv errno pid opens s = none := by
  have made := ready sends regs
  rw [miniKvmStatus_of_sends sends]
  generalize statusParseArgs fuel argv (StatusArgs.zeroed errno) = p at made
  by_cases few : ((optionsOf argv).filterMap StatusOption.added).length ≤ commandCount
  · obtain ⟨text, last, many⟩ : ∃ text,
        ((optionsOf argv).filterMap StatusOption.memText).getLast? = some text ∧
          4 < (numbersOf text).length := by
      by_contra none
      exact crowded ⟨few, fun text last => Nat.le_of_not_lt fun many => none ⟨text, last, many⟩⟩
    obtain ⟨list, held, holds⟩ := made.memRange text last
    simp only
    split
    · rfl
    · rw [made.counts.count]
      refine runCommands_none made.counts held holds many (Nat.zero_add _) ?_
      rw [List.drop_zero]
      exact dump_added_iff.mpr (List.ne_nil_of_mem (List.mem_of_getLast? last))
  · have eighth := Nat.lt_of_not_le few
    have stored : (commandCount, ((optionsOf argv).filterMap StatusOption.added)[commandCount]) ∈
        p.writes := by
      rw [made.counts.writes]
      exact List.mem_mapIdx.mpr ⟨commandCount, eighth, rfl⟩
    exact if_pos ⟨_, stored, Nat.le_refl commandCount⟩

end Client

/-- The mask that is printed is what is asked for. -/
theorem printed_iff {options : List StatusOption} {n : Nat} (most : n ≤ miniKvmMaxVcpus) :
    (∀ i, (i < miniKvmMaxVcpus ∧
        (if idsOf options = [] then 1 else withIds 0 (idsOf options) : UInt64).toNat.testBit i =
          true) ↔ Asked options n i) ↔
      (options.filterMap StatusOption.vcpusText = [] → n = 1) ∧
      (options.filterMap StatusOption.vcpusText ≠ [] → idsOf options ≠ [] ∧
        Selects ((idsOf options).map UInt64.toNat) n) := by
  have first (i : Nat) : (i < miniKvmMaxVcpus ∧ (UInt64.toNat 1).testBit i = true) ↔ i = 0 := by
    have one : UInt64.toNat 1 = 2 ^ 0 := rfl
    rw [one, Nat.testBit_two_pow, decide_eq_true_eq]
    constructor
    · exact fun both => both.2.symm
    · rintro rfl
      exact ⟨by decide, rfl⟩
  by_cases unlisted : options.filterMap StatusOption.vcpusText = []
  · have none : idsOf options = [] := by rw [idsOf, unlisted]; rfl
    simp only [Asked, unlisted, none, if_true, first, true_or, and_true, true_implies, ne_eq,
      not_true_eq_false, false_implies]
    constructor
    · intro same
      have zero := (same 0).mp rfl
      have last := (same (n - 1)).mpr (by omega)
      omega
    · rintro rfl i
      omega
  · simp only [Asked, unlisted, false_or, ne_eq, not_false_eq_true, true_implies, false_implies,
      true_and]
    by_cases none : idsOf options = []
    · simp only [none, if_true, first, List.not_mem_nil, false_and, exists_false, and_false,
        not_true_eq_false, iff_false, false_and, iff_false]
      exact fun same => same 0 rfl
    · simp only [none, if_false, not_false_eq_true, true_and]
      exact selects_iff _ most

/-- For the arguments of a client that sends its commands, on a paused VM of up to 64 vcpus: the vcpus
shown are the vcpus asked for exactly on these options. -/
theorem showsAsked_iff {argv : List (List Char)} {errno : Int}
    (sends : ∃ fuel, Sends (statusParseArgs fuel argv (StatusArgs.zeroed errno)))
    (regs : .regs ∈ optionsOf argv) (pid : Int32) (opens : Nat → Bool) {s : Server R S}
    (paused : Paused s.kvm) (most : s.kvm.vcpus.length ≤ miniKvmMaxVcpus) :
    ShowsAsked argv errno pid opens s ↔ Shown (optionsOf argv) s.kvm.vcpus.length := by
  obtain ⟨fuel, sends⟩ := sends
  have mask := (ready sends regs).vcpus
  constructor
  · rintro ⟨fuel', printed, runs, mem⟩
    have returns' : (statusParseArgs fuel' argv (StatusArgs.zeroed errno)).hung = false := by
      by_contra hung
      rw [Bool.not_eq_false] at hung
      simp only [miniKvmStatus, hung, true_or, if_true] at runs
      cases runs
    have same := statusParseArgs_unique sends.returned returns'
    have sends' := same ▸ sends
    by_cases room : Room (optionsOf argv)
    · obtain ⟨printed', runs', mem'⟩ := miniKvmStatus_some pid opens sends' regs
        paused room
      obtain rfl : printed = printed' := Option.some.inj (runs.symm.trans runs')
      rw [← same, mask] at mem'
      obtain ⟨alone, listed⟩ := (printed_iff most).mp fun i => (mem' i).symm.trans (mem i)
      exact ⟨room, alone, listed⟩
    · rw [miniKvmStatus_none sends' regs room] at runs
      cases runs
  · rintro ⟨room, alone, listed⟩
    obtain ⟨printed, runs, mem⟩ := miniKvmStatus_some pid opens sends regs
      paused room
    rw [mask] at mem
    exact ⟨fuel, printed, runs, fun i => (mem i).trans ((printed_iff most).mpr ⟨alone, listed⟩ i)⟩

/-- A paused VM of so many vcpus. -/
def pausedVm (n : Nat) : Server Nat Nat :=
  ⟨⟨.paused, 1, List.replicate n ⟨some 0, some 0⟩⟩, Replies.zeroed⟩

theorem paused_pausedVm (n : Nat) : Paused (pausedVm n).kvm := by
  refine ⟨rfl, fun vcpu member => ?_⟩
  obtain rfl := List.eq_of_mem_replicate member
  exact ⟨rfl, rfl⟩

/-- Vcpus 0 and 2 of three are shown. -/
theorem zeroTwo_shown : ShowsAsked (["status", "-n", "a", "-r", "-v", "0,2"].map String.toList) 0 7
    (fun _ => true) (pausedVm 3) := by
  refine (showsAsked_iff ⟨3, by decide⟩ (by decide) 7 (fun _ => true) (paused_pausedVm 3)
    (by decide)).mpr ⟨⟨by decide, fun text last => ?_⟩, fun none => absurd none (by decide), fun _ =>
      ⟨by decide, by decide, fun sign => absurd sign (by decide), by decide⟩⟩
  cases (show none = some text from last)

/-- Without a list, the second vcpu of two is not shown. -/
theorem secondVcpu_not_shown : ¬ ShowsAsked (["status", "-n", "a", "-r"].map String.toList) 0 7
    (fun _ => true) (pausedVm 2) := by
  rintro ⟨fuel, printed, runs, mem⟩
  have options : optionsOf (["status", "-n", "a", "-r"].map String.toList) =
      [.name ['a'], .regs] := by decide
  have parsed : statusParseArgs fuel (["status", "-n", "a", "-r"].map String.toList)
      (StatusArgs.zeroed 0) =
        ⟨some ['a'], true, none, 1, 1, [(0, .showRegs)], 0, .success, false⟩ := by
    rw [statusParseArgs, options]
    rfl
  have first : miniKvmStatus fuel (["status", "-n", "a", "-r"].map String.toList) 0 7
      (fun _ => true) (pausedVm 2) = some [0] := by
    simp only [miniKvmStatus, parsed]
    decide
  obtain rfl : [0] = printed := Option.some.inj (first.symm.trans runs)
  exact absurd ((mem 1).mpr ⟨by decide, .inl (by decide)⟩) (by decide)

end MiniKvm.Guarantees.SelectedVcpus
