import MiniKvm.Source.RunArgs

/-!
# Are the run options independent?

Every option stores through a pointer of its own, but the one of `-v` is eight bytes wide and `vcpu`
is four: the store zeroes the low half of `mem_size`. A size from an earlier `-m` survives it where
that half is zero anyway.
-/
namespace MiniKvm.Guarantees.RunOptions
open Lib Lib.Getopt Source Source.Strings Source.RunArgs

inductive RunOption where
  | name (value : List Char)
  | log (file : Option (List Char))
  | mem (value : List Char)
  | vcpu (value : List Char)
  deriving DecidableEq

namespace RunOption

def letter : RunOption → Char
  | name _ => 'n'
  | log _ => 'l'
  | mem _ => 'm'
  | vcpu _ => 'v'

def optarg : RunOption → Option (List Char)
  | name value | mem value | vcpu value => some value
  | log file => file

/-- What getopt_long returns for it. -/
def event (o : RunOption) : Event := .option o.letter o.optarg

end RunOption

/-- The size that a value of `-m` denotes. -/
def memOf (value : List Char) : Nat := (parseMem value 0 0).mem.toNat

/-- The number that a value of `-v` denotes. -/
def vcpuOf (value : List Char) : Nat := (strtoul value 0).value.toNat

/-- The program takes the value, and a number of vcpus has 32 bits. -/
def RunOption.Accepted : RunOption → Prop
  | name _ | log _ => True
  | mem value => (parseMem value 0 0).ret = 0
  | vcpu value => miniKvmIsUint value value.length = true ∧ vcpuOf value < 2 ^ 32

instance (o : RunOption) : Decidable o.Accepted :=
  match o with
  | .name _ | .log _ => inferInstanceAs (Decidable True)
  | .mem _ => inferInstanceAs (Decidable (_ = _))
  | .vcpu _ => inferInstanceAs (Decidable (_ ∧ _))

/-- Each field holds what its own option denotes, and is zero without. -/
structure Holds (opts : List RunOption) (args : MiniKvmRunArgs) : Prop where
  name : ∀ value, args.name = some value ↔ .name value ∈ opts
  logEnabled : args.logEnabled = true ↔ ∃ file, .log file ∈ opts
  memSize : ∀ value, .mem value ∈ opts → args.memSize = memOf value
  noMem : (∀ value, .mem value ∉ opts) → args.memSize = 0
  vcpu : ∀ value, .vcpu value ∈ opts → args.vcpu = vcpuOf value
  noVcpu : (∀ value, .vcpu value ∉ opts) → args.vcpu = 0
  kernelSize : args.kernelSize = 0
  kernelCode : args.kernelCode = none

/-- No vcpus stand for one. -/
def orOneVcpu (args : MiniKvmRunArgs) : MiniKvmRunArgs :=
  { args with vcpu := if args.vcpu = 0 then 1 else args.vcpu }

/-- The option has changed its own field only. -/
structure RunOption.Leaves (o : RunOption) (before after : MiniKvmRunArgs) : Prop where
  name : o.letter ≠ 'n' → after.name = before.name
  logEnabled : o.letter ≠ 'l' → after.logEnabled = before.logEnabled
  memSize : o.letter ≠ 'm' → after.memSize = before.memSize
  vcpu : o.letter ≠ 'v' → after.vcpu = before.vcpu
  kernelSize : after.kernelSize = before.kernelSize
  kernelCode : after.kernelCode = before.kernelCode

/-- Every order of the options, however they are written, gives the same arguments, and each option
leaves the fields of the others alone. -/
structure Independent (files : List Char → Option (List UInt8)) (errno : Int)
    (opts : List RunOption) : Prop where
  same : ∃ args, Holds opts args ∧ ∀ order : List RunOption, order.Perm opts →
    ∀ argv, CommandLine optsDef (order.map RunOption.event) argv.tail →
      (runParseArgs files argv (zeroed errno)).map (fun p => (p.ret, p.args)) =
        some (MiniKVMError.success.code, orOneVcpu args)
  frame : ∀ before o after, (before ++ o :: after).Perm opts → ∀ p p',
    handleAll files (zeroed errno) (before.map RunOption.event) = some p →
    handle files p o.event = some p' → o.Leaves p.args p'.args

/-- The name is short enough for a length of 32 bits, and with `-v` the low half of the size is
zero. -/
structure Fits (opts : List RunOption) : Prop where
  names : ∀ value, .name value ∈ opts → value.length + 1 < 2 ^ 32
  sizes : ∀ size count, .mem size ∈ opts → .vcpu count ∈ opts → memOf size % 2 ^ 32 = 0

theorem Fits.mono {opts opts' : List RunOption} (sub : opts ⊆ opts') (fits : Fits opts') :
    Fits opts :=
  ⟨fun value mem => fits.names value (sub mem),
    fun size count mem mem' => fits.sizes size count (sub mem) (sub mem')⟩

/-! ## What an option does to the arguments -/

def RunOption.apply (args : MiniKvmRunArgs) : RunOption → MiniKvmRunArgs
  | name value => { args with name := some (copiedName value) }
  | log _ => { args with logEnabled := true }
  | mem value => { args with memSize := memOf value }
  | vcpu value => { args with
      vcpu := vcpuOf value % 2 ^ 32
      memSize := vcpuOf value / 2 ^ 32 + 2 ^ 32 * (args.memSize / 2 ^ 32) }

def applyAll (opts : List RunOption) : MiniKvmRunArgs :=
  opts.foldl RunOption.apply ⟨none, false, 0, 0, 0, none⟩

theorem applyAll_append_singleton (opts : List RunOption) (o : RunOption) :
    applyAll (opts ++ [o]) = o.apply (applyAll opts) := by
  simp [applyAll]

/-- What the program has done to `*args` after some options. -/
structure Parsed (done : List RunOption) (p : Parsing) : Prop where
  ret : p.ret = 0
  heap : p.heap.length ≤ done.length
  kernel : p.image.load kernelCodeOffset 8 = 0
  args : p.args = applyAll done

theorem parsed_step (files : List Char → Option (List UInt8)) {done : List RunOption} {p : Parsing}
    {o : RunOption} (parsed : Parsed done p) (accepted : o.Accepted) (few : done.length < 4) :
    ∃ p', handle files p o.event = some p' ∧ Parsed (done ++ [o]) p' := by
  obtain ⟨ret, heap, kernel, args⟩ := parsed
  have heap' : p.heap.length ≤ (done ++ [o]).length := by
    rw [List.length_append]
    omega
  cases o with
  | name value =>
    refine ⟨p.storeName value, rfl, ret, ?_, ?_, ?_⟩
    · simpa [Parsing.storeName] using heap
    · rw [← kernel]
      exact ByteMem.load_store_of_disjoint (.inr (by decide))
    · rw [args_storeName (by omega) (by omega), args, applyAll_append_singleton]
      rfl
  | log file =>
    refine ⟨p.enableLog file, rfl, ret, heap', ?_, ?_⟩
    · rw [← kernel]
      exact ByteMem.load_store_of_disjoint (.inr (by decide))
    · rw [args_enableLog, args, applyAll_append_singleton]
      rfl
  | mem value =>
    refine ⟨p.storeMem value, rfl, ?_, heap', ?_, ?_⟩
    · exact (parseMem_ret value _ _ _ _).trans accepted
    · rw [← kernel]
      exact ByteMem.load_store_of_disjoint (.inr (by decide))
    · rw [args_storeMem accepted, args, applyAll_append_singleton]
      rfl
  | vcpu value =>
    refine ⟨p.storeVcpu value, rfl, ?_, heap', ?_, ?_⟩
    · exact (if_pos accepted.1).trans ret
    · rw [← kernel]
      exact ByteMem.load_store_of_disjoint (.inr (by decide))
    · rw [args_storeVcpu accepted.1, args, applyAll_append_singleton]
      rfl

theorem parsed_run (files : List Char → Option (List UInt8)) {done opts : List RunOption}
    {p : Parsing} (parsed : Parsed done p) (accepted : ∀ o ∈ opts, o.Accepted)
    (few : done.length + opts.length ≤ 4) :
    ∃ p', handleAll files p (opts.map RunOption.event) = some p' ∧ Parsed (done ++ opts) p' := by
  induction opts generalizing done p with
  | nil => exact ⟨p, rfl, by simpa using parsed⟩
  | cons o rest ih =>
    rw [List.length_cons] at few
    obtain ⟨p₁, handled, parsed₁⟩ :=
      parsed_step files parsed (accepted o (by simp)) (by omega)
    obtain ⟨p₂, handled', parsed₂⟩ := ih parsed₁ (fun o' mem => accepted o' (by simp [mem]))
      (by rw [List.length_append, List.length_singleton]; omega)
    refine ⟨p₂, ?_, by simpa using parsed₂⟩
    have goesOn : ¬ p₁.ret = MiniKVMError.argsFailed.code := by
      rw [parsed₁.ret]
      decide
    simp only [List.map_cons, handleAll, handled, if_neg goesOn, handled']

theorem parsed_zeroed (errno : Int) : Parsed [] (zeroed errno) := by
  have zero (addr n : Nat) : (zeroed errno).image.load addr n = 0 :=
    ByteMem.load_zeros fun _ _ _ => rfl
  refine ⟨rfl, Nat.le_refl _, zero _ _, ?_⟩
  simp only [Parsing.args, zero]
  rfl

/-! ## Any order -/

section
variable {opts : List RunOption}

theorem length_le_four (once : (opts.map RunOption.letter).Nodup) : opts.length ≤ 4 := by
  have sub : opts.map RunOption.letter ⊆ ['n', 'l', 'm', 'v'] := by
    intro c mem
    obtain ⟨o, -, rfl⟩ := List.mem_map.mp mem
    cases o <;> simp [RunOption.letter]
  simpa using (List.subperm_of_subset once sub).length_le

theorem copiedName_eq {value : List Char} (short : value.length + 1 < 2 ^ 32) :
    copiedName value = value := by
  have whole : (UInt32.ofNat value.length + 1).toNat = value.length + 1 := by
    rw [UInt32.toNat_add, UInt32.toNat_ofNat_of_lt' (Nat.lt_of_succ_lt short)]
    exact Nat.mod_eq_of_lt short
  rw [copiedName, whole]
  exact List.take_of_length_le (by omega)

theorem short_of_copiedName {value : List Char} (copied : copiedName value = value) :
    value.length + 1 < 2 ^ 32 := by
  have length := congrArg List.length copied
  rw [copiedName, List.length_take] at length
  have narrow := (UInt32.ofNat value.length + 1).toNat_lt
  by_contra long
  have last : value.length = 2 ^ 32 - 1 := by omega
  simp [last] at length

/-- The store of `-v` keeps a size whose low half is zero. -/
theorem kept_size {size count : Nat} (low : size % 2 ^ 32 = 0) (small : count < 2 ^ 32) :
    count / 2 ^ 32 + 2 ^ 32 * (size / 2 ^ 32) = size := by
  omega

theorem low_half_of_holds {done : List RunOption} {args : MiniKvmRunArgs} (holds : Holds done args)
    {value : List Char} (fits : Fits (done ++ [.vcpu value])) : args.memSize % 2 ^ 32 = 0 := by
  by_cases given : ∃ size, .mem size ∈ done
  · obtain ⟨size, mem⟩ := given
    rw [holds.memSize size mem]
    exact fits.sizes size value (by simp [mem]) (by simp)
  · rw [holds.noMem (not_exists.mp given), Nat.zero_mod]

theorem holds_step {done : List RunOption} {args : MiniKvmRunArgs} {o : RunOption}
    (holds : Holds done args) (fresh : ∀ o' ∈ done, o'.letter ≠ o.letter) (accepted : o.Accepted)
    (fits : Fits (done ++ [o])) : Holds (done ++ [o]) (o.apply args) := by
  obtain ⟨name, logEnabled, memSize, noMem, vcpu, noVcpu, kernelSize, kernelCode⟩ := id holds
  cases o with
  | name value =>
    have absent (value' : List Char) : .name value' ∉ done := fun mem => fresh _ mem rfl
    have copied := copiedName_eq (fits.names value (by simp))
    refine ⟨fun value' => ?_, ?_, ?_, ?_, ?_, ?_, kernelSize, kernelCode⟩
    · simp [RunOption.apply, absent, copied, eq_comm]
    · simpa [RunOption.apply] using logEnabled
    · simpa [RunOption.apply] using memSize
    · simpa [RunOption.apply] using noMem
    · simpa [RunOption.apply] using vcpu
    · simpa [RunOption.apply] using noVcpu
  | log file =>
    refine ⟨?_, ?_, ?_, ?_, ?_, ?_, kernelSize, kernelCode⟩
    · simpa [RunOption.apply] using name
    · exact ⟨fun _ => ⟨file, by simp⟩, fun _ => rfl⟩
    · simpa [RunOption.apply] using memSize
    · simpa [RunOption.apply] using noMem
    · simpa [RunOption.apply] using vcpu
    · simpa [RunOption.apply] using noVcpu
  | mem value =>
    have absent (value' : List Char) : .mem value' ∉ done := fun mem => fresh _ mem rfl
    refine ⟨?_, ?_, fun value' given => ?_, fun none => ?_, ?_, ?_, kernelSize, kernelCode⟩
    · simpa [RunOption.apply] using name
    · simpa [RunOption.apply] using logEnabled
    · obtain rfl : value' = value := by simpa [absent] using given
      rfl
    · simpa using none value
    · simpa [RunOption.apply] using vcpu
    · simpa [RunOption.apply] using noVcpu
  | vcpu value =>
    have absent (value' : List Char) : .vcpu value' ∉ done := fun mem => fresh _ mem rfl
    have kept := kept_size (low_half_of_holds holds fits) accepted.2
    refine ⟨?_, ?_, fun size given => ?_, fun none => ?_, fun value' given => ?_, fun none => ?_,
      kernelSize, kernelCode⟩
    · simpa [RunOption.apply] using name
    · simpa [RunOption.apply] using logEnabled
    · exact kept.trans (memSize size (by simpa using given))
    · exact kept.trans (noMem (by simpa using none))
    · obtain rfl : value' = value := by simpa [absent] using given
      exact Nat.mod_eq_of_lt accepted.2
    · simpa using none value

theorem holds_all (once : (opts.map RunOption.letter).Nodup) (accepted : ∀ o ∈ opts, o.Accepted)
    (fits : Fits opts) : Holds opts (applyAll opts) := by
  induction opts using List.reverseRecOn with
  | nil => constructor <;> simp [applyAll]
  | append_singleton done o ih =>
    rw [List.map_append, List.nodup_append] at once
    obtain ⟨once, -, apart⟩ := once
    have holds := ih once (fun o' mem => accepted o' (by simp [mem]))
      (fits.mono (List.subset_append_left _ _))
    rw [applyAll_append_singleton]
    exact holds_step holds
      (fun o' mem => apart _ (List.mem_map_of_mem mem) _ (by simp)) (accepted o (by simp)) fits

theorem leaves_apply {done : List RunOption} {args : MiniKvmRunArgs} {o : RunOption}
    (holds : Holds done args) (accepted : o.Accepted) (fits : Fits (done ++ [o])) :
    o.Leaves args (o.apply args) := by
  cases o with
  | name value =>
    exact ⟨fun other => absurd rfl other, fun _ => rfl, fun _ => rfl, fun _ => rfl, rfl, rfl⟩
  | log file =>
    exact ⟨fun _ => rfl, fun other => absurd rfl other, fun _ => rfl, fun _ => rfl, rfl, rfl⟩
  | mem value =>
    exact ⟨fun _ => rfl, fun _ => rfl, fun other => absurd rfl other, fun _ => rfl, rfl, rfl⟩
  | vcpu value =>
    exact ⟨fun _ => rfl, fun _ => rfl,
      fun _ => kept_size (low_half_of_holds holds fits) accepted.2,
      fun other => absurd rfl other, rfl, rfl⟩

/-- A field of its own holds for any order of the same options. -/
theorem Holds.perm {order : List RunOption} {args : MiniKvmRunArgs} (perm : order.Perm opts)
    (holds : Holds order args) : Holds opts args := by
  obtain ⟨name, logEnabled, memSize, noMem, vcpu, noVcpu, kernelSize, kernelCode⟩ := holds
  simp only [perm.mem_iff] at name logEnabled memSize noMem vcpu noVcpu
  exact ⟨name, logEnabled, memSize, noMem, vcpu, noVcpu, kernelSize, kernelCode⟩

/-- What an option denotes does not leave room for two answers. -/
theorem Holds.unique {args args' : MiniKvmRunArgs} (holds : Holds opts args)
    (holds' : Holds opts args') : args = args' := by
  have name : args.name = args'.name :=
    Option.ext fun value => (holds.name value).trans (holds'.name value).symm
  have logEnabled : args.logEnabled = args'.logEnabled :=
    Bool.eq_iff_iff.mpr (holds.logEnabled.trans holds'.logEnabled.symm)
  have memSize : args.memSize = args'.memSize := by
    by_cases given : ∃ value, .mem value ∈ opts
    · obtain ⟨value, mem⟩ := given
      rw [holds.memSize value mem, holds'.memSize value mem]
    · rw [holds.noMem (not_exists.mp given), holds'.noMem (not_exists.mp given)]
  have vcpu : args.vcpu = args'.vcpu := by
    by_cases given : ∃ value, .vcpu value ∈ opts
    · obtain ⟨value, mem⟩ := given
      rw [holds.vcpu value mem, holds'.vcpu value mem]
    · rw [holds.noVcpu (not_exists.mp given), holds'.noVcpu (not_exists.mp given)]
  obtain ⟨_, _, _, _, _, _⟩ := args
  obtain ⟨_, _, _, _, _, _⟩ := args'
  cases name
  cases logEnabled
  cases memSize
  cases vcpu
  cases holds.kernelSize.trans holds'.kernelSize.symm
  cases holds.kernelCode.trans holds'.kernelCode.symm
  rfl

/-- The run on options in some order, however they are written. -/
theorem runParseArgs_eq (files : List Char → Option (List UInt8)) (errno : Int)
    (once : (opts.map RunOption.letter).Nodup) (accepted : ∀ o ∈ opts, o.Accepted)
    (argv : List (List Char)) (line : CommandLine optsDef (opts.map RunOption.event) argv.tail) :
    (runParseArgs files argv (zeroed errno)).map (fun p => (p.ret, p.args)) =
      some (MiniKVMError.success.code, orOneVcpu (applyAll opts)) := by
  obtain ⟨p, ran, parsed⟩ := parsed_run files (parsed_zeroed errno) accepted
    (by simpa using length_le_four once)
  rw [List.nil_append] at parsed
  rw [runParseArgs, getoptLong_commandLine line, ran]
  have ret : p.defaultVcpu.ret = MiniKVMError.success.code := parsed.ret
  simp only [Option.map_some, ret, args_defaultVcpu, parsed.args]
  rfl

theorem independent_of_fits (files : List Char → Option (List UInt8)) (errno : Int)
    (once : (opts.map RunOption.letter).Nodup) (accepted : ∀ o ∈ opts, o.Accepted)
    (fits : Fits opts) : Independent files errno opts := by
  constructor
  · refine ⟨applyAll opts, holds_all once accepted fits, fun order perm argv line => ?_⟩
    have once' : (order.map RunOption.letter).Nodup := (perm.map _).nodup_iff.mpr once
    have accepted' : ∀ o ∈ order, o.Accepted := fun o mem => accepted o (perm.mem_iff.mp mem)
    rw [runParseArgs_eq files errno once' accepted' argv line]
    have holds := holds_all once' accepted' (fits.mono perm.subset)
    rw [(holds.perm perm).unique (holds_all once accepted fits)]
  · intro before o after perm p p' ran handled
    have once' := (perm.map RunOption.letter).nodup_iff.mpr once
    have all : ∀ o' ∈ before ++ [o], o' ∈ opts := fun o' mem => perm.subset (by
      rw [List.append_cons]
      exact List.mem_append_left _ mem)
    have onceBefore : (before.map RunOption.letter).Nodup := by
      rw [List.map_append, List.nodup_append] at once'
      exact once'.1
    have few : before.length < 4 := by
      have := length_le_four once'
      rw [List.length_append, List.length_cons] at this
      omega
    have acceptedBefore : ∀ o' ∈ before, o'.Accepted :=
      fun o' mem => accepted o' (all o' (List.mem_append_left _ mem))
    have acceptedThis := accepted o (all o (by simp))
    obtain ⟨p₁, ran', parsed⟩ := parsed_run files (parsed_zeroed errno) acceptedBefore
      (by simpa using length_le_four onceBefore)
    cases ran.symm.trans ran'
    obtain ⟨p₂, handled', parsed'⟩ := parsed_step files parsed acceptedThis (by simpa using few)
    cases handled.symm.trans handled'
    rw [parsed'.args, parsed.args, applyAll_append_singleton, List.nil_append]
    have fits' : Fits (before ++ [o]) := fits.mono all
    exact leaves_apply (holds_all onceBefore acceptedBefore
      (fits'.mono (List.subset_append_left _ _))) acceptedThis fits'

/-! ## The converse -/

theorem letter_ne_dash (o : RunOption) : o.letter ≠ '-' := by
  cases o <;> simp [RunOption.letter]

/-- Every option can be written. -/
theorem exists_written (o : RunOption) : ∃ args, Written optsDef o.event args := by
  cases o with
  | name value =>
    have known : shortArity 'n' optsDef.optstring = some .required := by decide
    exact ⟨_, .apart known (letter_ne_dash _)⟩
  | log file =>
    cases file with
    | none =>
      have known : shortArity 'l' optsDef.optstring = some .optional := by decide
      exact ⟨_, .bare known (by decide) (by decide)⟩
    | some file =>
      have known : findLong "log".toList optsDef.longopts =
        some ⟨"log".toList, .optional, 'l'⟩ := by decide
      exact ⟨_, .long known (by decide) (by decide)⟩
  | mem value =>
    have known : shortArity 'm' optsDef.optstring = some .required := by decide
    exact ⟨_, .apart known (letter_ne_dash _)⟩
  | vcpu value =>
    have known : shortArity 'v' optsDef.optstring = some .required := by decide
    exact ⟨_, .apart known (letter_ne_dash _)⟩

theorem exists_commandLine (opts : List RunOption) :
    ∃ argv, CommandLine optsDef (opts.map RunOption.event) argv := by
  induction opts with
  | nil => exact ⟨[], .nil⟩
  | cons o rest ih =>
    obtain ⟨args, written⟩ := exists_written o
    obtain ⟨argv, line⟩ := ih
    exact ⟨args ++ argv, .cons written line⟩

theorem fits_of_independent {files : List Char → Option (List UInt8)} {errno : Int}
    (once : (opts.map RunOption.letter).Nodup) (accepted : ∀ o ∈ opts, o.Accepted)
    (independent : Independent files errno opts) : Fits opts := by
  constructor
  · intro value given
    -- the name comes last, and what it leaves is what strncpy has copied
    obtain ⟨argv, line⟩ := exists_commandLine (opts.erase (.name value) ++ [.name value])
    have perm : (opts.erase (.name value) ++ [RunOption.name value]).Perm opts :=
      (List.perm_append_singleton _ _).trans (List.perm_cons_erase given).symm
    obtain ⟨args, holds, same⟩ := independent.same
    have result := same _ perm ([] :: argv) line
    rw [runParseArgs_eq files errno ((perm.map _).nodup_iff.mpr once)
      (fun o mem => accepted o (perm.mem_iff.mp mem)) ([] :: argv) line,
      applyAll_append_singleton] at result
    have copied : some (copiedName value) = args.name :=
      congrArg (fun r => r.2.name) (Option.some.inj result)
    rw [(holds.name value).mpr given, Option.some.injEq] at copied
    exact short_of_copiedName copied
  · intro size count given given'
    have other : RunOption.vcpu count ∈ opts.erase (.mem size) :=
      (List.mem_erase_of_ne (by simp)).mpr given'
    have perm : ([RunOption.mem size] ++
        RunOption.vcpu count :: (opts.erase (.mem size)).erase (.vcpu count)).Perm opts :=
      ((List.perm_cons_erase other).symm.cons _).trans (List.perm_cons_erase given).symm
    obtain ⟨p, ran, parsed⟩ := parsed_run files (parsed_zeroed errno)
      (fun o (mem : o ∈ [RunOption.mem size]) => List.mem_singleton.mp mem ▸ accepted _ given)
      (by simp)
    obtain ⟨p', handled, parsed'⟩ := parsed_step files parsed (accepted _ given') (by simp)
    have kept := (independent.frame _ _ _ perm p p' ran handled).memSize (by simp [RunOption.letter])
    rw [parsed'.args, parsed.args, applyAll_append_singleton] at kept
    have small := (accepted _ given').2
    have split : vcpuOf count / 2 ^ 32 + 2 ^ 32 * (memOf size / 2 ^ 32) = memOf size := kept
    omega

/-- Options given at most once, with values the program takes, are independent exactly where a name
fits and `-v` finds nothing in the low half of a size. -/
theorem independent_iff_fits (files : List Char → Option (List UInt8)) (errno : Int)
    (opts : List RunOption) (once : (opts.map RunOption.letter).Nodup)
    (accepted : ∀ o ∈ opts, o.Accepted) : Independent files errno opts ↔ Fits opts :=
  ⟨fits_of_independent once accepted, independent_of_fits files errno once accepted⟩

end

theorem fourGigabytes_independent :
    Independent (fun _ => none) 0 [.mem "4G".toList, .vcpu "2".toList, .name "vm".toList] := by
  refine (independent_iff_fits _ 0 [.mem "4G".toList, .vcpu "2".toList, .name "vm".toList]
    (by decide) ?_).mpr ⟨?_, ?_⟩
  · decide
  · intro value given
    obtain rfl : value = "vm".toList := by simpa using given
    decide
  · intro size count given _
    obtain rfl : size = "4G".toList := by simpa using given
    decide

/-- `-m4M -v2` loses the size, `-v2 -m4M` does not. -/
theorem fourMegabytes_not_independent : ¬ ∀ (files : List Char → Option (List UInt8)) (errno : Int)
    (opts : List RunOption), (opts.map RunOption.letter).Nodup → (∀ o ∈ opts, o.Accepted) →
    Independent files errno opts := by
  intro claimed
  have once : ([RunOption.mem "4M".toList, .vcpu "2".toList].map RunOption.letter).Nodup := by
    decide
  have accepted : ∀ o ∈ [RunOption.mem "4M".toList, .vcpu "2".toList], o.Accepted := by
    decide
  have fits := fits_of_independent once accepted (claimed (fun _ => none) 0 _ once accepted)
  have low := fits.sizes "4M".toList "2".toList (by simp) (by simp)
  revert low
  decide

end MiniKvm.Guarantees.RunOptions
