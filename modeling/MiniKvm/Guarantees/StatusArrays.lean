import MiniKvm.Source.StatusArgs

/-!
# The arrays of the status client

status_parse_args on every argument vector, and the ranges that status_build_command makes of it. `cmds`
has seven places and an option -r or -m takes the next one, whichever that is; the numbers of the last
-m are stored one by one to the four of `mem_range`, for every DUMP_MEM.
-/
namespace MiniKvm.Guarantees.StatusArrays
open Lib.Getopt Source Source.Containers Source.IntLists Source.StatusArgs

/-- Every store to `cmds` is in bounds, and `cmd_count` stays within them; a list of more than four
numbers is refused; and the command of each -m is built with stores to `mem_range[0..3]` only, which
then holds the list of that -m and the defaults behind it. -/
structure StaysInside (argv : List (List Char)) (errno : Int) : Prop where
  inside : ∀ fuel, (statusParseArgs fuel argv (zeroed errno)).cmdCount ≤ commandCount ∧
    ∀ write ∈ (statusParseArgs fuel argv (zeroed errno)).writes, write.1 < commandCount
  refuses : ∀ fuel, ∀ s ∈ trace fuel (zeroed errno) (optionsOf argv), ∀ text,
    s.option = .mem text → s.after.ret ≠ .argsFailed → (numbersOf text).length ≤ 4
  sends : ∀ fuel, (statusParseArgs fuel argv (zeroed errno)).ret = .success →
    (statusParseArgs fuel argv (zeroed errno)).hung = false →
    ∀ s ∈ trace fuel (zeroed errno) (optionsOf argv), ∀ text, s.option = .mem text → ∀ pid,
      ∃ built, statusBuildCommand (statusParseArgs fuel argv (zeroed errno)) s.before.cmdCount pid =
          some built ∧
        (∀ store ∈ built.stores, store.1 < 4) ∧ built.cmd.memRange.toList = padded (numbersOf text)

/-- Up to the first option that is not accepted there are at most seven of -r and -m and no accepted
list of more than four numbers; and where all are accepted, the lists mean one range. -/
structure Fits (errno : Int) (options : List StatusOption) : Prop where
  few : ((reached errno options).filterMap StatusOption.added).length ≤ commandCount
  short : ∀ text, .mem text ∈ reached errno options → Taken text errno → (numbersOf text).length ≤ 4
  same : (∀ o ∈ options, o.Passes errno) → ∀ text text', .mem text ∈ options →
    .mem text' ∈ options → padded (numbersOf text) = padded (numbersOf text')

/-! ## The state behind the loop -/

section Parse

variable {fuel : Nat} {argv : List (List Char)} {errno : Int}

theorem running_zeroed (errno : Int) : (zeroed errno).Running errno := ⟨rfl, rfl, rfl⟩

theorem counts_zeroed (errno : Int) : (zeroed errno).Counts [] := ⟨rfl, rfl⟩

theorem exists_fuel (options : List StatusOption) : ∃ fuel, ∀ o ∈ options, o.fuel ≤ fuel :=
  ⟨(options.map StatusOption.fuel).sum, fun _ member =>
    List.single_le_sum (fun _ _ => Nat.zero_le _) _ (List.mem_map_of_mem member)⟩

theorem statusParseArgs_kept (fuel : Nat) (argv : List (List Char)) (p : Parsing) :
    (statusParseArgs fuel argv p).ret = (handleAll fuel p (optionsOf argv)).ret ∧
      (statusParseArgs fuel argv p).hung = (handleAll fuel p (optionsOf argv)).hung ∧
      (statusParseArgs fuel argv p).memRange = (handleAll fuel p (optionsOf argv)).memRange := by
  simp only [statusParseArgs, Parsing.finish, Parsing.addCommand]
  split_ifs <;> exact ⟨rfl, rfl, rfl⟩

/-- A client that returns with success has come to the end of the options. -/
theorem goesOn_of_success
    (success : (statusParseArgs fuel argv (zeroed errno)).ret = .success)
    (returned : (statusParseArgs fuel argv (zeroed errno)).hung = false) :
    ¬ (handleAll fuel (zeroed errno) (optionsOf argv)).Stopped := by
  obtain ⟨ret, hung, -⟩ := statusParseArgs_kept fuel argv (zeroed errno)
  rintro (failed | stuck)
  · rw [← ret, success] at failed
    cases failed
  · rw [← hung, returned] at stuck
    cases stuck

theorem counts_finish {p : Parsing} {types : List CommandType} (counts : p.Counts types) :
    ∃ types', p.finish.Counts types' ∧ types <+: types' ∧ types'.length ≤ max 1 types.length := by
  simp only [Parsing.finish]
  generalize selects : (if p.vcpus = 0 ∧ p.regs then { p with vcpus := 1 } else p) = q
  have counted : q.Counts types := by
    rw [← selects]
    split
    · exact ⟨counts.count, counts.writes⟩
    · exact counts
  split
  · next none =>
    refine ⟨types ++ [.showState], counted.addCommand _, List.prefix_append _ _, ?_⟩
    rw [List.length_append, ← counted.count, none]
    exact Nat.le_max_left 1 0
  · exact ⟨types, counted, List.prefix_rfl, Nat.le_max_right _ _⟩

/-- `cmds` holds the types of the options that are handled, or the default. -/
theorem exists_counts (fuel : Nat) (argv : List (List Char)) (errno : Int) :
    ∃ types, (statusParseArgs fuel argv (zeroed errno)).Counts types ∧
      (handled fuel (zeroed errno) (optionsOf argv)).filterMap StatusOption.added <+: types ∧
      types.length ≤
        max 1 ((handled fuel (zeroed errno) (optionsOf argv)).filterMap StatusOption.added).length := by
  have counts := (counts_zeroed errno).handleAll fuel (optionsOf argv)
  rw [List.nil_append] at counts
  simp only [statusParseArgs]
  split
  · exact ⟨_, counts, List.prefix_rfl, Nat.le_max_right _ _⟩
  · exact counts_finish counts

end Parse

/-! ## The arrays -/

section Arrays

variable {fuel : Nat} {argv : List (List Char)} {errno : Int}

theorem inside_of_length {p : Parsing} {types : List CommandType} (counts : p.Counts types)
    (few : types.length ≤ commandCount) :
    p.cmdCount ≤ commandCount ∧ ∀ write ∈ p.writes, write.1 < commandCount := by
  refine ⟨by rwa [counts.count], fun write member => ?_⟩
  rw [counts.writes] at member
  obtain ⟨i, inside, rfl⟩ := List.mem_mapIdx.mp member
  exact Nat.lt_of_lt_of_le inside few

/-- The command of an option -m is built from what `mem_range` holds at the end. -/
theorem statusBuildCommand_mem {s : Step} (member : s ∈ trace fuel (zeroed errno) (optionsOf argv))
    {text : List Char} (mem : s.option = .mem text) (pid : Int32) :
    statusBuildCommand (statusParseArgs fuel argv (zeroed errno)) s.before.cmdCount pid =
      (statusParseArgs fuel argv (zeroed errno)).memRange.map fun list =>
        ⟨{ type := .dumpMem, memRange := storeAll (.replicate 4 0) (memRangeStores list), pid := pid },
          memRangeStores list⟩ := by
  obtain ⟨types, counts, before, -⟩ := exists_counts fuel argv errno
  have adds : s.option.added = some .dumpMem := by rw [mem]; rfl
  have index := (counts_zeroed errno).index member adds
  rw [List.nil_append] at index
  have type : (statusParseArgs fuel argv (zeroed errno)).cmd s.before.cmdCount = .dumpMem := by
    obtain ⟨more, rfl⟩ := before
    rw [counts.cmd, List.getElem?_append_left (List.getElem?_eq_some_iff.mp index).1, index]
    rfl
  rw [statusBuildCommand, type]

theorem few_of_inside (inside : ∀ fuel,
      (statusParseArgs fuel argv (zeroed errno)).cmdCount ≤ commandCount) :
    ((reached errno (optionsOf argv)).filterMap StatusOption.added).length ≤ commandCount := by
  obtain ⟨fuel, enough⟩ := exists_fuel (optionsOf argv)
  obtain ⟨types, counts, before, -⟩ := exists_counts fuel argv errno
  have count := inside fuel
  rw [counts.count] at count
  rw [← handled_eq (running_zeroed errno) enough]
  exact Nat.le_trans before.length_le count

theorem inside_of_few
    (few : ((reached errno (optionsOf argv)).filterMap StatusOption.added).length ≤ commandCount)
    (fuel : Nat) :
    (statusParseArgs fuel argv (zeroed errno)).cmdCount ≤ commandCount ∧
      ∀ write ∈ (statusParseArgs fuel argv (zeroed errno)).writes, write.1 < commandCount := by
  obtain ⟨types, counts, -, most⟩ := exists_counts fuel argv errno
  have before : handled fuel (zeroed errno) (optionsOf argv) <+: reached errno (optionsOf argv) :=
    handled_le_reached (running_zeroed errno)
  have fewer := (before.filterMap StatusOption.added).length_le
  refine inside_of_length counts ?_
  simp only [commandCount] at few ⊢
  omega

/-- An accepted -m is handled, and its list taken. -/
theorem exists_step {text : List Char} (member : .mem text ∈ reached errno (optionsOf argv)) :
    ∃ fuel, ∃ s ∈ trace fuel (zeroed errno) (optionsOf argv), s.option = .mem text ∧
      (Taken text errno → s.after.ret ≠ .argsFailed) := by
  obtain ⟨fuel, enough⟩ := exists_fuel (optionsOf argv)
  rw [← handled_eq (running_zeroed errno) enough, mem_handled_iff] at member
  obtain ⟨s, inTrace, mem⟩ := member
  refine ⟨fuel, s, inTrace, mem, fun taken => ?_⟩
  obtain ⟨running, step⟩ := running_of_mem_trace (running_zeroed errno) inTrace
  have after : (handle fuel s.before (.mem text)).Running errno :=
    running.handle taken (Nat.zero_le _)
  rw [step, mem, after.ret]
  exact MiniKVMError.noConfusion

/-- A -m that is not refused is one of the options up to the first that is not accepted, and is
accepted itself. -/
theorem taken_of_step {s : Step} (inTrace : s ∈ trace fuel (zeroed errno) (optionsOf argv))
    {text : List Char} (mem : s.option = .mem text) (accepted : s.after.ret ≠ .argsFailed) :
    .mem text ∈ reached errno (optionsOf argv) ∧ Taken text errno := by
  have start := running_zeroed errno
  refine ⟨(handled_le_reached start).subset (mem_handled_iff.mpr ⟨s, inTrace, mem⟩), ?_⟩
  obtain ⟨running, step⟩ := running_of_mem_trace start inTrace
  rw [step, mem] at accepted
  have goesOn : ¬ (handle fuel s.before (.mem text)).Stopped := by
    rintro (failed | hung)
    · exact accepted failed
    · exact absurd (running.returned.symm.trans hung) Bool.false_ne_true
  exact (running.passes goesOn).1

end Arrays

/-! ## The ranges -/

section Ranges

variable {argv : List (List Char)} {errno : Int}

/-- All ranges that are sent are the same. -/
theorem same_of_sends (stays : StaysInside argv errno)
    (pass : ∀ o ∈ optionsOf argv, o.Passes errno) {text text' : List Char}
    (member : .mem text ∈ optionsOf argv) (member' : .mem text' ∈ optionsOf argv) :
    padded (numbersOf text) = padded (numbersOf text') := by
  have start := running_zeroed errno
  obtain ⟨fuel, enough⟩ := exists_fuel (optionsOf argv)
  have final := start.handleAll pass enough
  obtain ⟨ret, hung, -⟩ := statusParseArgs_kept fuel argv (zeroed errno)
  rw [← reached_eq_self pass, ← handled_eq start enough, mem_handled_iff] at member member'
  obtain ⟨s, inTrace, mem⟩ := member
  obtain ⟨s', inTrace', mem'⟩ := member'
  obtain ⟨built, builds, -, range⟩ := stays.sends fuel (ret.trans final.ret)
    (hung.trans final.returned) s inTrace text mem 0
  obtain ⟨built', builds', -, range'⟩ := stays.sends fuel (ret.trans final.ret)
    (hung.trans final.returned) s' inTrace' text' mem' 0
  rw [statusBuildCommand_mem inTrace mem] at builds
  rw [statusBuildCommand_mem inTrace' mem', builds, Option.some.injEq] at builds'
  rw [← range, ← range', builds']

/-- The last range is sent for every -m. -/
theorem sends_of_fits (fits : Fits errno (optionsOf argv)) {fuel : Nat}
    (success : (statusParseArgs fuel argv (zeroed errno)).ret = .success)
    (returned : (statusParseArgs fuel argv (zeroed errno)).hung = false) {s : Step}
    (inTrace : s ∈ trace fuel (zeroed errno) (optionsOf argv)) {text : List Char}
    (mem : s.option = .mem text) (pid : Int32) :
    ∃ built, statusBuildCommand (statusParseArgs fuel argv (zeroed errno)) s.before.cmdCount pid =
        some built ∧
      (∀ store ∈ built.stores, store.1 < 4) ∧
      built.cmd.memRange.toList = padded (numbersOf text) := by
  have start := running_zeroed errno
  have goesOn := goesOn_of_success success returned
  obtain ⟨pass, -⟩ := start.all_pass goesOn
  obtain ⟨-, short, same⟩ := fits
  have member := (handled_le_reached start).subset (mem_handled_iff.mpr ⟨s, inTrace, mem⟩)
  rw [reached_eq_self pass] at short member
  obtain ⟨text', is_last⟩ := Option.isSome_iff_exists.mp
    (List.getLast?_isSome.mpr (List.ne_nil_of_mem (mem_texts_iff.mpr member)))
  obtain ⟨list, held, holds⟩ := (memRange_handleAll start goesOn).1 text' is_last
  have member' := mem_texts_iff.mp (List.mem_of_getLast? is_last)
  have four := short text' member' (pass _ member')
  rw [statusBuildCommand_mem inTrace mem, (statusParseArgs_kept fuel argv (zeroed errno)).2.2, held,
    Option.map_some]
  refine ⟨_, rfl, memRangeStores_lt holds four, ?_⟩
  rw [memRangeStores_eq holds four, storeAll_range _ (length_padded four)]
  exact same pass text' text member' member

end Ranges

/-- The client stays inside its arrays and sends each range it is given exactly on the argument vectors
that fit. -/
theorem staysInside_iff_fits (argv : List (List Char)) (errno : Int) :
    StaysInside argv errno ↔ Fits errno (optionsOf argv) := by
  constructor
  · intro stays
    refine ⟨few_of_inside fun fuel => (stays.inside fuel).1, fun text member taken => ?_,
      fun pass text text' => same_of_sends stays pass⟩
    obtain ⟨fuel, s, inTrace, mem, accepted⟩ := exists_step member
    exact stays.refuses fuel s inTrace text mem (accepted taken)
  · intro fits
    refine ⟨inside_of_few fits.few, fun fuel s inTrace text mem accepted => ?_,
      fun fuel success returned s inTrace text mem =>
        sends_of_fits fits success returned inTrace mem⟩
    obtain ⟨member, taken⟩ := taken_of_step inTrace mem accepted
    exact fits.short text member taken

/-- The eighth -r is stored behind the last place of `cmds`, and five numbers are not refused. -/
theorem eightRegs_outside : ¬ StaysInside ("status".toList :: List.replicate 8 "-r".toList) 0 ∧
    ¬ StaysInside ["status".toList, "-m".toList, "1,2,3,4,5".toList] 0 := by
  constructor
  · rintro ⟨inside, -, -⟩
    exact absurd (inside 0).1 (by decide)
  · rintro ⟨-, refuses, -⟩
    have options : optionsOf ["status".toList, "-m".toList, "1,2,3,4,5".toList] =
        [.mem "1,2,3,4,5".toList] := by decide
    rw [options] at refuses
    exact absurd (refuses 0 _ List.mem_cons_self _ rfl (by decide)) (by decide)

end MiniKvm.Guarantees.StatusArrays
