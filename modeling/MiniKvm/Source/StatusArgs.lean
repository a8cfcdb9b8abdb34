import MiniKvm.Lib.Getopt
import MiniKvm.Source.Clients
import MiniKvm.Source.IntLists

/-!
# status_parse_args and status_build_command

The options of the status command (commands/status.c, commands/status.h), and the commands that are
built from them. The stores to `cmds` and to `mem_range` are recorded with their indices, so that those
past the end show.
-/
namespace MiniKvm.Source.StatusArgs
open Lib Lib.Getopt Containers Strings IntLists

/-- `MINI_KVM_COMMAND_COUNT`, the length of `cmds`. -/
def commandCount : Nat := 7

def optsDef : Spec where
  optstring := "n:v:rm:h".toList
  longopts := [⟨"name".toList, .required, 'n'⟩, ⟨"vcpu".toList, .required, 'v'⟩,
    ⟨"regs".toList, .none, 'r'⟩, ⟨"mem".toList, .required, 'm'⟩, ⟨"help".toList, .none, 'h'⟩]

/-- `*args`, and the variables of status_parse_args. -/
structure Parsing where
  name : Option (List Char)
  regs : Bool
  memRange : Option Vec
  vcpus : UInt64
  cmdCount : Nat
  /-- The stores to `cmds`, in order: the index and the type. -/
  writes : List (Nat × CommandType)
  errno : Int
  ret : MiniKVMError
  /-- mini_kvm_parse_cpu_list has not returned. -/
  hung : Bool

/-- `args->cmds[index]`. -/
def Parsing.cmd (p : Parsing) (index : Nat) : CommandType :=
  (p.writes.reverse.lookup index).getD .none

/-! ## The cases of the switch -/

/-- The characters that strncpy copies: `name_len` is an int32_t. -/
def copiedName (optarg : List Char) : List Char :=
  optarg.take (Int32.ofNat optarg.length + 1).toInt64.toUInt64.toNat

def Parsing.addCommand (p : Parsing) (type : CommandType) : Parsing :=
  { p with writes := p.writes ++ [(p.cmdCount, type)], cmdCount := p.cmdCount + 1 }

def Parsing.fail (p : Parsing) : Parsing := { p with ret := .argsFailed }

def Parsing.storeVcpus (fuel : Nat) (p : Parsing) (optarg : List Char) : Parsing :=
  match miniKvmParseCpuList fuel optarg p.vcpus p.errno with
  | none => { p with hung := true }
  | some parsed =>
    { p with
      vcpus := parsed.cpuList
      errno := parsed.errno
      ret := if parsed.ret ≠ MiniKVMError.success.code then .argsFailed else p.ret }

def Parsing.storeMemRange (p : Parsing) (optarg : List Char) : Parsing :=
  let parsed := miniKvmParseIntList optarg p.errno
  { p with
    memRange := some parsed.list
    errno := parsed.errno
    ret := if parsed.ret ≠ MiniKVMError.success.code then .argsFailed else p.ret }

/-- The cases of the switch. getopt_long returns `n`, `v` and `m` with their argument. -/
inductive StatusOption where
  | name (optarg : List Char)
  | regs
  | vcpus (optarg : List Char)
  | mem (optarg : List Char)
  /-- `h` and `?`. -/
  | fail
  | other
  deriving DecidableEq

def StatusOption.ofEvent : Event → StatusOption
  | .bad => .fail
  | .option c optarg =>
    match c with
    | 'n' => .name (optarg.getD [])
    | 'r' => .regs
    | 'v' => .vcpus (optarg.getD [])
    | 'm' => .mem (optarg.getD [])
    | 'h' => .fail
    | _ => .other

def handle (fuel : Nat) (p : Parsing) : StatusOption → Parsing
  | .name optarg => { p with name := some (copiedName optarg) }
  | .regs => { p with regs := true }.addCommand .showRegs
  | .vcpus optarg => p.storeVcpus fuel optarg
  | .mem optarg => (p.storeMemRange optarg).addCommand .dumpMem
  | .fail => p.fail
  | .other => p

/-- The loop is over for another reason than the end of the options. -/
def Parsing.Stopped (p : Parsing) : Prop := p.ret = .argsFailed ∨ p.hung = true

instance (p : Parsing) : Decidable p.Stopped := inferInstanceAs (Decidable (_ ∨ _))

def handleAll (fuel : Nat) (p : Parsing) : List StatusOption → Parsing
  | [] => p
  | o :: rest =>
    if (handle fuel p o).Stopped then handle fuel p o else handleAll fuel (handle fuel p o) rest

/-- Behind the loop: `!0` is 1, and a command there is in any case. -/
def Parsing.finish (p : Parsing) : Parsing :=
  let p := if p.vcpus = 0 ∧ p.regs then { p with vcpus := 1 } else p
  if p.cmdCount = 0 then p.addCommand .showState else p

/-- `MiniKvmStatusArgs args = {0}` in mini_kvm_status. -/
def zeroed (errno : Int) : Parsing := ⟨none, false, none, 0, 0, [], errno, .success, false⟩

/-- The options of `argv`, in order. -/
def optionsOf (argv : List (List Char)) : List StatusOption :=
  (getoptLong optsDef argv.tail).map StatusOption.ofEvent

def statusParseArgs (fuel : Nat) (argv : List (List Char)) (p : Parsing) : Parsing :=
  let p := handleAll fuel p (optionsOf argv)
  if p.hung then p else p.finish

/-! ## status_build_command -/

/-- The loops over `mem_range`. The counter of the first is a uint32_t; a list that it wraps on has
been stored out of bounds before. -/
def memRangeStores (list : Vec) : List (Nat × Int64) :=
  (List.range list.len).map (fun i => (i, ((list.get i).getD 0).toInt64)) ++
    ((List.range 4).drop list.len).map fun i => (i, Clients.memRangeDefaults[i]!)

/-- The stores within the bounds of `mem_range`. -/
def storeAll (memRange : Vector Int64 4) (stores : List (Nat × Int64)) : Vector Int64 4 :=
  stores.foldl (fun memRange store => memRange.setIfInBounds store.1 store.2) memRange

/-- What is left in `*cmd`, and the stores to its `mem_range`, in order. -/
structure Built where
  cmd : MiniKvmStatusCommand
  stores : List (Nat × Int64)

/-- On a `MiniKvmStatusCommand cmd = {0}`; `none` where `args->mem_range` is NULL and read. -/
def statusBuildCommand (p : Parsing) (cmdIndex : Nat) (pid : Int32) : Option Built :=
  match p.cmd cmdIndex with
  | .showState => some ⟨{ type := .showState }, []⟩
  | .showRegs => some ⟨{ type := .showRegs, vcpus := p.vcpus }, []⟩
  | .dumpMem => p.memRange.map fun list =>
      ⟨{ type := .dumpMem, memRange := storeAll (.replicate 4 0) (memRangeStores list), pid := pid },
        memRangeStores list⟩
  | _ => some ⟨{ type := .none }, []⟩

/-! ## The range that is sent -/

/-- A list of numbers with the defaults for the missing positions. -/
def padded (numbers : List UInt64) : List Int64 :=
  numbers.map UInt64.toInt64 ++ Clients.memRangeDefaults.toList.drop numbers.length

theorem length_padded {numbers : List UInt64} (short : numbers.length ≤ 4) :
    (padded numbers).length = 4 := by
  rw [padded, List.length_append, List.length_map, List.length_drop, Vector.length_toList]
  omega

theorem storeAll_range (start : Vector Int64 4) {range : List Int64} (length : range.length = 4) :
    (storeAll start ((List.range 4).map fun i => (i, range[i]!))).toList = range := by
  have four : start.toList.length = 4 := Vector.length_toList
  have stored (stores : List (Nat × Int64)) : (storeAll start stores).toList =
      stores.foldl (fun list store => list.set store.1 store.2) start.toList := by
    unfold storeAll
    induction stores generalizing start with
    | nil => rfl
    | cons store stores ih =>
      rw [List.foldl_cons, List.foldl_cons, ih _ Vector.length_toList, Vector.toList_setIfInBounds]
  rw [stored]
  match range, length, start.toList, four with
  | [a, b, c, d], _, [p, q, r, s], _ => rfl

/-- A list of up to four numbers is stored in its places, and the defaults behind it. -/
theorem memRangeStores_eq {list : Vec} {values : List UInt64} (holds : list.Holds values)
    (short : values.length ≤ 4) :
    memRangeStores list = (List.range 4).map fun i => (i, (padded values)[i]!) := by
  have front : List.range values.length = (List.range 4).take values.length := by
    rw [List.take_range, Nat.min_eq_left short]
  rw [memRangeStores, holds.len]
  conv_rhs => rw [← List.take_append_drop values.length (List.range 4), List.map_append]
  congr 1
  · rw [front]
    refine List.map_congr_left fun i member => ?_
    rw [← front, List.mem_range] at member
    rw [holds.get (by rwa [holds.len]), List.getElem?_eq_getElem member, Option.getD_some, padded]
    rw [getElem!_pos _ i (by simp; omega), List.getElem_append_left (by simpa using member),
      List.getElem_map]
  · refine List.map_congr_left fun i member => ?_
    rw [List.range_eq_range', List.drop_range', List.mem_range'_1] at member
    have inside : i < 4 := by omega
    rw [getElem!_pos Clients.memRangeDefaults i inside,
      getElem!_pos (padded values) i (by rwa [length_padded short])]
    simp only [padded]
    rw [List.getElem_append_right (by simp; omega), List.getElem_drop]
    simp only [List.length_map, Vector.getElem_toList]
    congr 2
    omega

theorem padded_eq {numbers : List UInt64} (short : numbers.length ≤ 4) :
    padded numbers = (Vector.ofFn fun i : Fin 4 =>
      (numbers.map UInt64.toInt64).getD i Clients.memRangeDefaults[i]).toList := by
  refine List.ext_getElem (by rw [length_padded short, Vector.length_toList]) fun i inside _ => ?_
  rw [length_padded short] at inside
  rw [Vector.getElem_toList, Vector.getElem_ofFn]
  simp only [padded]
  by_cases given : i < numbers.length
  · rw [List.getElem_append_left (by simpa using given),
      List.getD_eq_getElem _ _ (by simpa using given)]
  · have behind : numbers.length + (i - numbers.length) = i := by omega
    rw [List.getElem_append_right (by simpa using given),
      List.getD_eq_default _ _ (by simpa using given)]
    simp only [List.getElem_drop, List.length_map, behind, Vector.getElem_toList]
    rfl

theorem memRangeStores_lt {list : Vec} {values : List UInt64} (holds : list.Holds values)
    (short : values.length ≤ 4) : ∀ store ∈ memRangeStores list, store.1 < 4 := by
  rw [memRangeStores_eq holds short]
  intro store stored
  obtain ⟨i, inRange, rfl⟩ := List.mem_map.mp stored
  exact List.mem_range.mp inRange

/-- The fifth number is stored past the end. -/
theorem exists_store {list : Vec} {values : List UInt64} (holds : list.Holds values)
    (many : 4 < values.length) : ∃ store ∈ memRangeStores list, 4 ≤ store.1 := by
  refine ⟨_, List.mem_append_left _ (List.mem_map_of_mem (List.mem_range.mpr ?_)), Nat.le_refl 4⟩
  rwa [holds.len]

/-! ## The options -/

/-- The command that an option adds. -/
def StatusOption.added : StatusOption → Option CommandType
  | .regs => some .showRegs
  | .mem _ => some .dumpMem
  | _ => none

/-- The option is accepted, so that the loop goes on. -/
def StatusOption.Passes (errno : Int) : StatusOption → Prop
  | .vcpus optarg => Taken optarg errno ∧ (numbersOf optarg).length < 2 ^ 32
  | .mem optarg => Taken optarg errno
  | .fail => False
  | _ => True

instance (errno : Int) (o : StatusOption) : Decidable (o.Passes errno) :=
  match o with
  | .vcpus _ => inferInstanceAs (Decidable (_ ∧ _))
  | .mem optarg => inferInstanceAs (Decidable (Taken optarg errno))
  | .fail => inferInstanceAs (Decidable False)
  | .name _ | .regs | .other => inferInstanceAs (Decidable True)

/-- As much fuel as the ids of the option need. -/
def StatusOption.fuel : StatusOption → Nat
  | .vcpus optarg => (numbersOf optarg).length + 1
  | _ => 0

/-- `cmds` holds these types, and `cmd_count` is their number. -/
structure Parsing.Counts (p : Parsing) (types : List CommandType) : Prop where
  count : p.cmdCount = types.length
  writes : p.writes = types.mapIdx Prod.mk

/-- Nothing has been refused, and `errno` is what it was. -/
structure Parsing.Running (p : Parsing) (errno : Int) : Prop where
  ret : p.ret = .success
  returned : p.hung = false
  errno_eq : p.errno = errno

section Step

variable {fuel : Nat} {p : Parsing} {types : List CommandType} {o : StatusOption} {errno : Int}

theorem Parsing.Counts.addCommand (counts : p.Counts types) (type : CommandType) :
    (p.addCommand type).Counts (types ++ [type]) := by
  refine ⟨?_, ?_⟩
  · rw [List.length_append, ← counts.count]
    rfl
  · rw [List.mapIdx_concat, ← counts.count, ← counts.writes]
    rfl

theorem storeVcpus_writes (p : Parsing) (optarg : List Char) :
    (p.storeVcpus fuel optarg).cmdCount = p.cmdCount ∧
      (p.storeVcpus fuel optarg).writes = p.writes := by
  unfold Parsing.storeVcpus
  split <;> exact ⟨rfl, rfl⟩

/-- An option adds its command, whether it is accepted or not. -/
theorem Parsing.Counts.handle (counts : p.Counts types) (o : StatusOption) :
    (handle fuel p o).Counts (types ++ o.added.toList) := by
  have kept (p' : Parsing) (same : p'.cmdCount = p.cmdCount ∧ p'.writes = p.writes) :
      p'.Counts types := ⟨same.1.trans counts.count, same.2.trans counts.writes⟩
  cases o with
  | regs => exact (kept { p with regs := true } ⟨rfl, rfl⟩).addCommand .showRegs
  | mem optarg => exact (kept (p.storeMemRange optarg) ⟨rfl, rfl⟩).addCommand .dumpMem
  | vcpus optarg =>
    have same := kept (StatusArgs.handle fuel p (.vcpus optarg)) (storeVcpus_writes p optarg)
    simpa only [StatusOption.added, Option.toList_none, List.append_nil] using same
  | name | fail | other =>
    simp only [StatusOption.added, Option.toList_none, List.append_nil]
    exact kept _ ⟨rfl, rfl⟩

theorem lookup_mapIdx (types : List CommandType) (index : Nat) :
    (types.mapIdx Prod.mk).reverse.lookup index = types[index]? := by
  induction types using List.reverseRecOn with
  | nil => rfl
  | append_singleton types type ih =>
    rw [List.mapIdx_concat, List.reverse_append, List.reverse_singleton, List.singleton_append,
      List.lookup_cons]
    by_cases last : index = types.length
    · simp [last]
    · have elsewhere : (index == types.length) = false := by simpa using last
      simp only [elsewhere, ih, List.getElem?_append]
      split
      · rfl
      · rw [List.getElem?_eq_none (by omega), List.getElem?_eq_none (by simp; omega)]

/-- The types are at their indices. -/
theorem Parsing.Counts.cmd (counts : p.Counts types) (index : Nat) :
    p.cmd index = types[index]?.getD .none := by
  rw [Parsing.cmd, counts.writes, lookup_mapIdx]

/-- A command is the one that the network of clients builds, where `mem_range` has room for the
numbers. -/
theorem statusBuildCommand_eq (counts : p.Counts types) {i : Nat} (inside : i < types.length)
    (pid : Int32) {values : List UInt64}
    (room : types[i] = .dumpMem →
      ∃ list, p.memRange = some list ∧ list.Holds values ∧ values.length ≤ 4) :
    ∃ stores, statusBuildCommand p i pid =
        some ⟨Clients.statusBuildCommand ⟨values.map UInt64.toInt64, p.vcpus, types, pid⟩ types[i],
          stores⟩ ∧ ∀ store ∈ stores, store.1 < 4 := by
  have type : p.cmd i = types[i] := by
    rw [counts.cmd, List.getElem?_eq_getElem inside]
    rfl
  rw [statusBuildCommand, type]
  generalize types[i] = type at room ⊢
  cases type with
  | dumpMem =>
    obtain ⟨list, held, holds, four⟩ := room rfl
    have range : storeAll (.replicate 4 0) (memRangeStores list) = Vector.ofFn fun i : Fin 4 =>
        (values.map UInt64.toInt64).getD i Clients.memRangeDefaults[i] := by
      rw [← Vector.toList_inj, memRangeStores_eq holds four, storeAll_range _ (length_padded four),
        padded_eq four]
    rw [held, Option.map_some, range]
    exact ⟨_, rfl, memRangeStores_lt holds four⟩
  | _ => exact ⟨[], rfl, by simp⟩

/-- An option that is accepted lets the loop go on, where its ids are not too many for the fuel. -/
theorem Parsing.Running.handle (running : p.Running errno) (passes : o.Passes errno)
    (enough : o.fuel ≤ fuel) : (handle fuel p o).Running errno := by
  obtain ⟨ret, returned, rfl⟩ := running
  cases o with
  | vcpus optarg =>
    have read := miniKvmParseCpuList_taken p.vcpus passes.1 passes.2 enough
    simp only [StatusArgs.handle, Parsing.storeVcpus, read]
    exact ⟨by simpa using ret, returned, rfl⟩
  | mem optarg =>
    have taken := (miniKvmParseIntList_taken_iff optarg p.errno).mpr passes
    simp only [StatusArgs.handle, Parsing.storeMemRange, taken]
    exact ⟨by simpa [Parsing.addCommand] using ret, returned, (miniKvmParseIntList_taken passes).2⟩
  | fail => exact passes.elim
  | name | regs | other => exact ⟨ret, returned, rfl⟩

/-- The loop goes on behind a list of ids that is accepted, and then they are selected. -/
theorem storeVcpus_of_goesOn {optarg : List Char} (goesOn : ¬ (p.storeVcpus fuel optarg).Stopped) :
    Taken optarg p.errno ∧ (numbersOf optarg).length < 2 ^ 32 ∧
      p.storeVcpus fuel optarg = { p with vcpus := withIds p.vcpus (numbersOf optarg) } := by
  unfold Parsing.storeVcpus at goesOn ⊢
  cases ends : miniKvmParseCpuList fuel optarg p.vcpus p.errno with
  | none =>
    rw [ends] at goesOn
    exact absurd (.inr rfl) goesOn
  | some out =>
    rw [ends] at goesOn
    have accepted : out.ret = MiniKVMError.success.code := by
      by_contra refused
      exact goesOn (.inl (if_pos refused))
    obtain ⟨taken, short, rfl⟩ := taken_of_success ends accepted
    exact ⟨taken, short, rfl⟩

/-- With any fuel, the loop goes on only behind an option that is accepted. -/
theorem Parsing.Running.passes (running : p.Running errno)
    (goesOn : ¬ (StatusArgs.handle fuel p o).Stopped) :
    o.Passes errno ∧ (StatusArgs.handle fuel p o).Running errno := by
  obtain ⟨ret, returned, rfl⟩ := running
  cases o with
  | vcpus optarg =>
    obtain ⟨taken, short, selects⟩ := storeVcpus_of_goesOn goesOn
    rw [StatusArgs.handle, selects]
    exact ⟨⟨taken, short⟩, ret, returned, rfl⟩
  | mem optarg =>
    have accepted : (miniKvmParseIntList optarg p.errno).ret = MiniKVMError.success.code := by
      by_contra refused
      exact goesOn (.inl (if_pos refused))
    have taken := (miniKvmParseIntList_taken_iff optarg p.errno).mp accepted
    exact ⟨taken, Parsing.Running.handle ⟨ret, returned, rfl⟩ taken (Nat.zero_le _)⟩
  | fail => exact absurd (.inl rfl) goesOn
  | name | regs | other => exact ⟨trivial, ret, returned, rfl⟩

/-- More fuel changes nothing about an option on which the loop ends. -/
theorem handle_mono {more : Nat} (le : fuel ≤ more) (returns : (handle fuel p o).hung = false) :
    handle more p o = handle fuel p o := by
  cases o with
  | vcpus optarg =>
    simp only [handle, Parsing.storeVcpus] at returns ⊢
    cases ends : miniKvmParseCpuList fuel optarg p.vcpus p.errno with
    | none =>
      rw [ends] at returns
      cases returns
    | some out => rw [miniKvmParseCpuList_mono le ends]
  | mem | name | regs | fail | other => rfl

end Step

/-! ## The loop -/

/-- An option that is handled, with the state before and after. -/
structure Step where
  before : Parsing
  option : StatusOption
  after : Parsing

/-- The options that the loop handles. -/
def trace (fuel : Nat) (p : Parsing) : List StatusOption → List Step
  | [] => []
  | o :: rest =>
    ⟨p, o, handle fuel p o⟩ ::
      if (handle fuel p o).Stopped then [] else trace fuel (handle fuel p o) rest

def handled (fuel : Nat) (p : Parsing) (options : List StatusOption) : List StatusOption :=
  (trace fuel p options).map Step.option

/-- The options up to the first that is not accepted. -/
def reached (errno : Int) : List StatusOption → List StatusOption
  | [] => []
  | o :: rest => o :: if o.Passes errno then reached errno rest else []

theorem reached_eq_self {errno : Int} {options : List StatusOption}
    (pass : ∀ o ∈ options, o.Passes errno) : reached errno options = options := by
  induction options with
  | nil => rfl
  | cons o rest ih =>
    rw [reached, if_pos (pass o (by simp)), ih fun o member => pass o (by simp [member])]

section Loop

variable {fuel : Nat} {p : Parsing} {types : List CommandType} {o : StatusOption}
  {options : List StatusOption} {errno : Int}

theorem handled_cons (o : StatusOption) :
    handled fuel p (o :: options) =
      o :: if (handle fuel p o).Stopped then [] else handled fuel (handle fuel p o) options := by
  rw [handled, trace, List.map_cons]
  split <;> rfl

theorem filterMap_added (o : StatusOption) (others : List StatusOption) :
    (o :: others).filterMap StatusOption.added =
      o.added.toList ++ others.filterMap StatusOption.added := by
  cases adds : o.added <;> simp [adds]

/-- With any fuel, no more is handled. -/
theorem handled_le_reached (running : p.Running errno) :
    handled fuel p options <+: reached errno options := by
  induction options generalizing p with
  | nil => exact List.prefix_rfl
  | cons o rest ih =>
    rw [handled_cons, reached, List.prefix_cons_inj]
    by_cases stopped : (handle fuel p o).Stopped
    · rw [if_pos stopped]
      exact List.nil_prefix
    · obtain ⟨passes, later⟩ := running.passes stopped
      rw [if_neg stopped, if_pos passes]
      exact ih later

theorem Parsing.Running.not_stopped (running : p.Running errno) : ¬ p.Stopped := by
  rintro (failed | hung)
  · rw [running.ret] at failed
    cases failed
  · rw [running.returned] at hung
    cases hung

/-- With enough fuel all of it is. -/
theorem handled_eq (running : p.Running errno) (enough : ∀ o ∈ options, o.fuel ≤ fuel) :
    handled fuel p options = reached errno options := by
  induction options generalizing p with
  | nil => rfl
  | cons o rest ih =>
    rw [handled_cons, reached]
    congr 1
    by_cases passes : o.Passes errno
    · have later := running.handle passes (enough o (by simp))
      rw [if_neg later.not_stopped, if_pos passes]
      exact ih later fun o member => enough o (by simp [member])
    · have stopped : (handle fuel p o).Stopped := by
        by_contra goesOn
        exact passes (running.passes goesOn).1
      rw [if_pos stopped, if_neg passes]

/-- What is known of a step. -/
theorem running_of_mem_trace (running : p.Running errno) {s : Step}
    (member : s ∈ trace fuel p options) :
    s.before.Running errno ∧ s.after = handle fuel s.before s.option := by
  induction options generalizing p with
  | nil => cases member
  | cons o rest ih =>
    rcases List.mem_cons.mp member with rfl | later
    · exact ⟨running, rfl⟩
    · split at later
      · cases later
      · next goesOn => exact ih (running.passes goesOn).2 later

theorem mem_handled_iff {o : StatusOption} :
    o ∈ handled fuel p options ↔ ∃ s ∈ trace fuel p options, s.option = o := List.mem_map

/-- Each option that is handled adds its command. -/
theorem Parsing.Counts.handleAll (counts : p.Counts types) (fuel : Nat)
    (options : List StatusOption) :
    (handleAll fuel p options).Counts
      (types ++ (handled fuel p options).filterMap StatusOption.added) := by
  induction options generalizing p types with
  | nil => simpa [StatusArgs.handleAll, handled, trace] using counts
  | cons o rest ih =>
    have step : (StatusArgs.handle fuel p o).Counts (types ++ o.added.toList) := counts.handle o
    rw [StatusArgs.handleAll, handled_cons, filterMap_added, ← List.append_assoc]
    split
    · simpa using step
    · exact ih step

/-- Where an option adds its command. -/
theorem Parsing.Counts.index (counts : p.Counts types) {s : Step} (member : s ∈ trace fuel p options)
    {type : CommandType} (adds : s.option.added = some type) :
    (types ++ (handled fuel p options).filterMap StatusOption.added)[s.before.cmdCount]? =
      some type := by
  induction options generalizing p types with
  | nil => cases member
  | cons o rest ih =>
    rw [handled_cons, filterMap_added]
    rcases List.mem_cons.mp member with rfl | later
    · rw [adds, counts.count]
      simp
    · have step : (StatusArgs.handle fuel p o).Counts (types ++ o.added.toList) := counts.handle o
      rw [← List.append_assoc]
      split at later
      · cases later
      · next goesOn =>
        rw [if_neg goesOn]
        exact ih step later

/-- Where nothing ends the loop early, every option has been accepted. -/
theorem Parsing.Running.all_pass (running : p.Running errno)
    (goesOn : ¬ (StatusArgs.handleAll fuel p options).Stopped) :
    (∀ o ∈ options, o.Passes errno) ∧ (StatusArgs.handleAll fuel p options).Running errno := by
  induction options generalizing p with
  | nil => exact ⟨by simp, running⟩
  | cons o rest ih =>
    rw [StatusArgs.handleAll] at goesOn ⊢
    split at goesOn
    · next stopped => exact absurd stopped goesOn
    · next more =>
      obtain ⟨passes, later⟩ := running.passes more
      rw [if_neg more]
      obtain ⟨others, final⟩ := ih later goesOn
      exact ⟨List.forall_mem_cons.mpr ⟨passes, others⟩, final⟩

/-- All options are handled then. -/
theorem handled_of_goesOn (goesOn : ¬ (StatusArgs.handleAll fuel p options).Stopped) :
    handled fuel p options = options := by
  induction options generalizing p with
  | nil => rfl
  | cons o rest ih =>
    rw [StatusArgs.handleAll] at goesOn
    rw [handled_cons]
    split at goesOn
    · next stopped => exact absurd stopped goesOn
    · next more => rw [if_neg more, ih goesOn]

theorem handleAll_mono {more : Nat} (le : fuel ≤ more)
    (returns : (handleAll fuel p options).hung = false) :
    handleAll more p options = handleAll fuel p options := by
  induction options generalizing p with
  | nil => rfl
  | cons o rest ih =>
    have here : (handle fuel p o).hung = false := by
      rw [handleAll] at returns
      split at returns
      · exact returns
      · next goesOn => exact Bool.eq_false_iff.mpr fun hung => goesOn (.inr hung)
    rw [handleAll, handleAll, handle_mono le here]
    rw [handleAll] at returns
    split at returns
    · next stopped => rw [if_pos stopped, if_pos stopped]
    · next goesOn => rw [if_neg goesOn, if_neg goesOn, ih returns]

/-- With enough fuel, options that are all accepted do not end the loop. -/
theorem Parsing.Running.handleAll (running : p.Running errno)
    (pass : ∀ o ∈ options, o.Passes errno) (enough : ∀ o ∈ options, o.fuel ≤ fuel) :
    (StatusArgs.handleAll fuel p options).Running errno := by
  induction options generalizing p with
  | nil => exact running
  | cons o rest ih =>
    have later := running.handle (pass o (by simp)) (enough o (by simp))
    rw [StatusArgs.handleAll, if_neg later.not_stopped]
    exact ih later (fun o member => pass o (by simp [member])) fun o member =>
      enough o (by simp [member])

/-- The text of an option -m. -/
def StatusOption.memText : StatusOption → Option (List Char)
  | .mem optarg => some optarg
  | _ => none

theorem mem_texts_iff {text : List Char} :
    text ∈ options.filterMap StatusOption.memText ↔ .mem text ∈ options := by
  rw [List.mem_filterMap]
  constructor
  · rintro ⟨o, member, text_eq⟩
    cases o with
    | mem _ => rwa [← Option.some.inj text_eq]
    | _ => cases text_eq
  · exact fun member => ⟨_, member, rfl⟩

theorem memRange_handle_other (fuel : Nat) (p : Parsing) (none : o.memText = none) :
    (handle fuel p o).memRange = p.memRange := by
  cases o with
  | mem optarg => cases none
  | vcpus optarg =>
    simp only [handle, Parsing.storeVcpus]
    split <;> rfl
  | name | regs | fail | other => rfl

/-- Behind options that are accepted, `mem_range` holds the numbers of the last -m, or is what it was
before. -/
theorem memRange_handleAll (running : p.Running errno)
    (goesOn : ¬ (StatusArgs.handleAll fuel p options).Stopped) :
    (∀ text, (options.filterMap StatusOption.memText).getLast? = some text →
        ∃ list, (handleAll fuel p options).memRange = some list ∧ list.Holds (numbersOf text)) ∧
      (options.filterMap StatusOption.memText = [] →
        (handleAll fuel p options).memRange = p.memRange) := by
  induction options generalizing p with
  | nil =>
    refine ⟨fun text last => ?_, fun _ => rfl⟩
    cases last
  | cons o rest ih =>
    rw [StatusArgs.handleAll] at goesOn ⊢
    split at goesOn
    · next stopped => exact absurd stopped goesOn
    · next more =>
      obtain ⟨passes, later⟩ := running.passes more
      rw [if_neg more]
      obtain ⟨holds, kept⟩ := ih later goesOn
      cases text : o.memText with
      | none =>
        rw [List.filterMap_cons_none text, ← memRange_handle_other fuel p text]
        exact ⟨holds, kept⟩
      | some optarg =>
        rw [List.filterMap_cons_some text]
        obtain rfl : o = .mem optarg := by
          cases o with
          | mem _ => rw [Option.some.inj text]
          | _ => cases text
        refine ⟨fun last eq => ?_, fun none => absurd none (List.cons_ne_nil _ _)⟩
        rw [List.getLast?_cons, Option.some.injEq] at eq
        cases behind : (rest.filterMap StatusOption.memText).getLast? with
        | some text' =>
          rw [behind, Option.getD_some] at eq
          exact holds last (eq ▸ behind)
        | none =>
          rw [behind, Option.getD_none] at eq
          rw [← running.errno_eq] at passes
          rw [kept (List.getLast?_eq_none_iff.mp behind), ← eq]
          exact ⟨_, rfl, (miniKvmParseIntList_taken passes).1⟩

/-- The text of an option -v. -/
def StatusOption.vcpusText : StatusOption → Option (List Char)
  | .vcpus optarg => some optarg
  | _ => none

/-- The ids of all options -v, in order. -/
def idsOf (options : List StatusOption) : List UInt64 :=
  (options.filterMap StatusOption.vcpusText).flatMap numbersOf

/-- What an option that is accepted does to the selection. -/
theorem vcpus_handle (goesOn : ¬ (handle fuel p o).Stopped) :
    (handle fuel p o).vcpus = withIds p.vcpus (idsOf [o]) := by
  cases o with
  | vcpus optarg =>
    obtain ⟨-, -, selects⟩ := storeVcpus_of_goesOn goesOn
    rw [handle, selects]
    simp [idsOf, StatusOption.vcpusText]
  | mem | name | regs | fail | other => rfl

/-- Behind options that are accepted, the ids of all of them are selected. -/
theorem vcpus_handleAll (running : p.Running errno)
    (goesOn : ¬ (StatusArgs.handleAll fuel p options).Stopped) :
    (handleAll fuel p options).vcpus = withIds p.vcpus (idsOf options) := by
  induction options generalizing p with
  | nil => rfl
  | cons o rest ih =>
    rw [StatusArgs.handleAll] at goesOn ⊢
    split at goesOn
    · next stopped => exact absurd stopped goesOn
    · next more =>
      rw [if_neg more, ih (running.passes more).2 goesOn, vcpus_handle more, withIds, withIds,
        withIds, ← List.foldl_append]
      congr 1
      simp only [idsOf, ← List.flatMap_append, ← List.filterMap_append]
      rfl

/-- What an option brings about and none undoes holds behind a loop that came by the option. -/
theorem handleAll_of_mem {P : Parsing → Prop} (keeps : ∀ p o, P p → P (handle fuel p o))
    (sets : ∀ p, P (handle fuel p o)) (member : o ∈ options)
    (goesOn : ¬ (handleAll fuel p options).Stopped) : P (handleAll fuel p options) := by
  have kept (p : Parsing) (options : List StatusOption) (holds : P p) :
      P (handleAll fuel p options) := by
    induction options generalizing p with
    | nil => exact holds
    | cons o rest ih =>
      rw [handleAll]
      split
      · exact keeps p o holds
      · exact ih _ (keeps p o holds)
  induction options generalizing p with
  | nil => cases member
  | cons o' rest ih =>
    rw [handleAll] at goesOn ⊢
    split at goesOn
    · next stopped => exact absurd stopped goesOn
    · next more =>
      rw [if_neg more]
      rcases List.mem_cons.mp member with rfl | later
      · exact kept _ _ (sets p)
      · exact ih later goesOn

end Loop

end MiniKvm.Source.StatusArgs
