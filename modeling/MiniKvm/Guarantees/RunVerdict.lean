import MiniKvm.Guarantees.RunOptions

/-!
# Is a bad run option ever forgotten?

run_parse_args has one `ret`. A `-v` that is not a number, and a size without a unit it knows, end the
loop. The other failures of parse_mem do not, so the next `-m` overwrites them, and what
mini_kvm_to_uint makes of a `-v` is not looked at.
-/
namespace MiniKvm.Guarantees.RunVerdict
open Lib Lib.Getopt Source Source.Strings Source.RunArgs RunOptions

/-! ## Good and bad options -/

/-- A size that parse_mem takes, or a number of vcpus below 2^32. -/
def Good : RunOption → Prop
  | .name _ | .log _ => True
  | .mem value => (parseMem value 0 0).ret = MiniKVMError.success.code
  | .vcpu value => value ≠ [] ∧ value.all isDigit = true ∧ decimal value < 2 ^ 32

instance (o : RunOption) : Decidable (Good o) :=
  match o with
  | .name _ | .log _ => inferInstanceAs (Decidable True)
  | .mem _ => inferInstanceAs (Decidable (_ = _))
  | .vcpu _ => inferInstanceAs (Decidable (_ ∧ _))

/-- run_parse_args returns MINI_KVM_SUCCESS. -/
def Succeeds (files : List Char → Option (List UInt8)) (argv : List (List Char)) (errno : Int) :
    Prop :=
  ∃ p, runParseArgs files argv (zeroed errno) = some p ∧ p.ret = MiniKVMError.success.code

/-- A bad option that does not end the loop: a size that parse_mem refuses with -1, or no digits or
too many of them for a number of vcpus. -/
def Passes : RunOption → Prop
  | .name _ | .log _ => False
  | .mem value => (parseMem value 0 0).ret = -1
  | .vcpu value => value = [] ∨ value.all isDigit = true ∧ 2 ^ 32 ≤ decimal value

instance (o : RunOption) : Decidable (Passes o) :=
  match o with
  | .name _ | .log _ => inferInstanceAs (Decidable False)
  | .mem _ => inferInstanceAs (Decidable (_ = _))
  | .vcpu _ => inferInstanceAs (Decidable (_ ∨ _))

def memValue : RunOption → Option (List Char)
  | .mem value => some value
  | _ => none

/-- The value of the last `-m`. -/
def lastMem (opts : List RunOption) : Option (List Char) := (opts.filterMap memValue).getLast?

/-- A `-v` that is not a number, a size without a unit that is known, or a bad size in the last `-m`. -/
def Sticks (opts : List RunOption) : Prop :=
  (∃ value, .vcpu value ∈ opts ∧ value.all isDigit = false) ∨
    (∃ value, .mem value ∈ opts ∧ (parseMem value 0 0).ret = MiniKVMError.argsFailed.code) ∨
      ∃ value ∈ lastMem opts, (parseMem value 0 0).ret ≠ MiniKVMError.success.code

/-! ## The variable ret -/

/-- What an option leaves in `ret`. -/
def retAfter (ret : Int32) : RunOption → Int32
  | .name _ | .log _ => ret
  | .mem value => (parseMem value 0 0).ret
  | .vcpu value => if value.all isDigit then ret else MiniKVMError.argsFailed.code

/-- What the loop leaves there. -/
def verdict : Int32 → List RunOption → Int32
  | ret, [] => ret
  | ret, o :: rest =>
    if retAfter ret o = MiniKVMError.argsFailed.code then retAfter ret o
    else verdict (retAfter ret o) rest

theorem handle_ret (files : List Char → Option (List UInt8)) (p : Parsing) (o : RunOption) :
    ∃ p', handle files p o.event = some p' ∧ p'.ret = retAfter p.ret o := by
  cases o with
  | name value => exact ⟨p.storeName value, rfl, rfl⟩
  | log file => exact ⟨p.enableLog file, rfl, rfl⟩
  | mem value => exact ⟨p.storeMem value, rfl, parseMem_ret value _ _ _ _⟩
  | vcpu value =>
    refine ⟨p.storeVcpu value, rfl, ?_⟩
    simp only [Parsing.storeVcpu, miniKvmIsUint_eq, List.take_length]
    rfl

theorem handleAll_ret (files : List Char → Option (List UInt8)) (opts : List RunOption)
    (p : Parsing) :
    ∃ p', handleAll files p (opts.map RunOption.event) = some p' ∧ p'.ret = verdict p.ret opts := by
  induction opts generalizing p with
  | nil => exact ⟨p, rfl, rfl⟩
  | cons o rest ih =>
    obtain ⟨p₁, handled, ret⟩ := handle_ret files p o
    simp only [List.map_cons, handleAll, handled, ret, verdict]
    split
    · exact ⟨p₁, rfl, ret⟩
    · obtain ⟨p₂, handled', ret'⟩ := ih p₁
      exact ⟨p₂, handled', ret ▸ ret'⟩

theorem succeeds_iff {opts : List RunOption} {argv : List (List Char)}
    (line : CommandLine optsDef (opts.map RunOption.event) argv.tail)
    (files : List Char → Option (List UInt8)) (errno : Int) :
    Succeeds files argv errno ↔ verdict 0 opts = MiniKVMError.success.code := by
  obtain ⟨p, handled, ret⟩ := handleAll_ret files opts (zeroed errno)
  rw [Succeeds, runParseArgs, getoptLong_commandLine line, handled]
  constructor
  · rintro ⟨p', same, success⟩
    cases same
    exact ret.symm.trans success
  · intro success
    exact ⟨_, rfl, ret.trans success⟩

/-- parse_mem returns one of three values. -/
theorem parseMem_ret_cases (value : List Char) :
    (parseMem value 0 0).ret = MiniKVMError.success.code ∨ (parseMem value 0 0).ret = -1 ∨
      (parseMem value 0 0).ret = MiniKVMError.argsFailed.code := by
  simp only [parseMem]
  split
  · exact .inr (.inl rfl)
  · split
    · exact .inr (.inr rfl)
    · split
      · exact .inl rfl
      · exact .inr (.inl rfl)

/-- What the last `-m` leaves in `ret`, if there is one. -/
def lastRet (ret : Int32) (opts : List RunOption) : Int32 :=
  ((lastMem opts).map fun value => (parseMem value 0 0).ret).getD ret

theorem lastRet_mem (ret : Int32) (value : List Char) (rest : List RunOption) :
    lastRet ret (.mem value :: rest) = lastRet (parseMem value 0 0).ret rest := by
  have values : (RunOption.mem value :: rest).filterMap memValue =
      value :: rest.filterMap memValue := rfl
  rw [lastRet, lastRet, lastMem, lastMem, values, List.getLast?_cons]
  cases (rest.filterMap memValue).getLast? <;> rfl

/-- No option ends the loop, and the last size is good. -/
structure Clean (ret : Int32) (opts : List RunOption) : Prop where
  counts : ∀ value, .vcpu value ∈ opts → value.all isDigit = true
  units : ∀ value, .mem value ∈ opts → (parseMem value 0 0).ret ≠ MiniKVMError.argsFailed.code
  last : lastRet ret opts = MiniKVMError.success.code

/-- The first option does not end the loop, and the others go on from what it leaves. -/
theorem clean_cons_iff (o : RunOption) (rest : List RunOption) {ret : Int32}
    (goesOn : ret ≠ MiniKVMError.argsFailed.code) :
    Clean ret (o :: rest) ↔
      retAfter ret o ≠ MiniKVMError.argsFailed.code ∧ Clean (retAfter ret o) rest := by
  cases o with
  | name value =>
    constructor
    · rintro ⟨counts, units, last⟩
      exact ⟨goesOn, by simpa using counts, by simpa using units, last⟩
    · rintro ⟨-, counts, units, last⟩
      exact ⟨by simpa using counts, by simpa using units, last⟩
  | log file =>
    constructor
    · rintro ⟨counts, units, last⟩
      exact ⟨goesOn, by simpa using counts, by simpa using units, last⟩
    · rintro ⟨-, counts, units, last⟩
      exact ⟨by simpa using counts, by simpa using units, last⟩
  | mem value =>
    constructor
    · rintro ⟨counts, units, last⟩
      refine ⟨units value (by simp), by simpa using counts, ?_, ?_⟩
      · exact fun value' later => units value' (by simp [later])
      · exact (lastRet_mem ret value rest).symm.trans last
    · rintro ⟨other, counts, units, last⟩
      refine ⟨by simpa using counts, ?_, (lastRet_mem ret value rest).trans last⟩
      intro value' member
      rcases List.mem_cons.mp member with same | later
      · cases same
        exact other
      · exact units value' later
  | vcpu value =>
    by_cases digits : value.all isDigit = true
    · have same : retAfter ret (.vcpu value) = ret := if_pos digits
      rw [same]
      constructor
      · rintro ⟨counts, units, last⟩
        refine ⟨goesOn, ?_, by simpa using units, last⟩
        exact fun value' later => counts value' (by simp [later])
      · rintro ⟨-, counts, units, last⟩
        refine ⟨?_, by simpa using units, last⟩
        intro value' member
        rcases List.mem_cons.mp member with same | later
        · cases same
          exact digits
        · exact counts value' later
    · have stops : retAfter ret (.vcpu value) = MiniKVMError.argsFailed.code := if_neg digits
      refine iff_of_false ?_ fun later => later.1 stops
      exact fun clean => digits (clean.counts value (by simp))

theorem verdict_success_iff (opts : List RunOption) {ret : Int32}
    (goesOn : ret ≠ MiniKVMError.argsFailed.code) :
    verdict ret opts = MiniKVMError.success.code ↔ Clean ret opts := by
  induction opts generalizing ret with
  | nil => exact ⟨fun success => ⟨by simp, by simp, success⟩, fun clean => clean.last⟩
  | cons o rest ih =>
    rw [clean_cons_iff o rest goesOn]
    by_cases stops : retAfter ret o = MiniKVMError.argsFailed.code
    · have ends : verdict ret (o :: rest) = MiniKVMError.argsFailed.code :=
        (if_pos stops).trans stops
      rw [ends]
      exact iff_of_false (by decide) fun later => later.1 stops
    · have later : verdict ret (o :: rest) = verdict (retAfter ret o) rest := if_neg stops
      rw [later, ih stops, and_iff_right stops]

theorem clean_iff (opts : List RunOption) : Clean 0 opts ↔ ¬ Sticks opts := by
  have last : lastRet 0 opts = MiniKVMError.success.code ↔
      ∀ value ∈ lastMem opts, (parseMem value 0 0).ret = MiniKVMError.success.code := by
    rw [lastRet]
    cases lastMem opts with
    | none => exact iff_of_true rfl (by simp)
    | some value => simp
  constructor
  · rintro ⟨counts, units, good⟩ (⟨value, member, bad⟩ | ⟨value, member, bad⟩ | ⟨value, member, bad⟩)
    · rw [counts value member] at bad
      cases bad
    · exact units value member bad
    · exact bad (last.mp good value member)
  · intro clean
    refine ⟨?_, ?_, last.mpr ?_⟩
    · intro value member
      by_contra bad
      exact clean (.inl ⟨value, member, by simpa using bad⟩)
    · intro value member bad
      exact clean (.inr (.inl ⟨value, member, bad⟩))
    · intro value member
      by_contra bad
      exact clean (.inr (.inr ⟨value, member, bad⟩))

/-! ## All options -/

/-- Where nothing sticks, an option is good or it passes. -/
theorem good_iff_not_passes {opts : List RunOption} (clean : Clean 0 opts) {o : RunOption}
    (member : o ∈ opts) : Good o ↔ ¬ Passes o := by
  cases o with
  | name value => simp [Good, Passes]
  | log file => simp [Good, Passes]
  | mem value =>
    rcases parseMem_ret_cases value with good | bad | bad
    · simp only [Good, Passes, good, true_iff]
      decide
    · simp only [Good, Passes, bad, not_true_eq_false, iff_false]
      decide
    · exact absurd bad (clean.units value member)
  | vcpu value =>
    have digits := clean.counts value member
    simp only [Good, Passes, digits, true_and, not_or, Nat.not_le]

/-- An option that sticks is bad. -/
theorem exists_bad_of_sticks {opts : List RunOption} (sticks : Sticks opts) :
    ∃ o ∈ opts, ¬ Good o := by
  rcases sticks with ⟨value, member, bad⟩ | ⟨value, member, bad⟩ | ⟨value, last, bad⟩
  · refine ⟨_, member, fun good => ?_⟩
    rw [good.2.1] at bad
    cases bad
  · refine ⟨_, member, fun good => ?_⟩
    rw [Good, bad] at good
    exact absurd good (by decide)
  · obtain ⟨o, member, is_mem⟩ := List.mem_filterMap.mp (List.mem_of_getLast? last)
    cases o with
    | mem value' =>
      cases is_mem
      exact ⟨_, member, bad⟩
    | _ => cases is_mem

/-- run_parse_args succeeds on good options and on no others exactly where no bad option passes, or
another one sticks. -/
theorem succeeds_on_good_iff (files : List Char → Option (List UInt8)) (errno : Int)
    (opts : List RunOption) (argv : List (List Char))
    (line : CommandLine optsDef (opts.map RunOption.event) argv.tail) :
    (Succeeds files argv errno ↔ ∀ o ∈ opts, Good o) ↔ (∀ o ∈ opts, ¬ Passes o) ∨ Sticks opts := by
  have goesOn : (0 : Int32) ≠ MiniKVMError.argsFailed.code := by decide
  rw [succeeds_iff line, verdict_success_iff opts goesOn, clean_iff]
  by_cases sticks : Sticks opts
  · obtain ⟨o, member, bad⟩ := exists_bad_of_sticks sticks
    refine iff_of_true ?_ (.inr sticks)
    exact iff_of_false (not_not.mpr sticks) fun all => bad (all o member)
  · have clean := (clean_iff opts).mpr sticks
    simp only [sticks, not_false_eq_true, true_iff, or_false]
    refine forall_congr' fun o => forall_congr' fun member => ?_
    exact good_iff_not_passes clean member

/-- Two sizes, each as an argument of its own. -/
def twoSizes (first second : List Char) : List (List Char) :=
  ["run".toList, "-m".toList, first, "-m".toList, second]

theorem line_twoSizes (first second : List Char) :
    CommandLine optsDef ([RunOption.mem first, .mem second].map RunOption.event)
      (twoSizes first second).tail := by
  have known : shortArity 'm' optsDef.optstring = some .required := by decide
  exact .cons (.apart known (by decide)) (.cons (.apart known (by decide)) .nil)

theorem succeeds_on_two_good :
    Succeeds (fun _ => none) (twoSizes "4M".toList "8M".toList) 0 ↔
      ∀ o ∈ [RunOption.mem "4M".toList, .mem "8M".toList], Good o :=
  (succeeds_on_good_iff (fun _ => none) 0 [.mem "4M".toList, .mem "8M".toList]
    (twoSizes "4M".toList "8M".toList) (line_twoSizes _ _)).mpr (.inl (by decide))

/-- `-m x4M` is forgotten before `-m 4M`. -/
theorem badSize_forgotten : ¬ ∀ (files : List Char → Option (List UInt8)) (errno : Int)
    (opts : List RunOption) (argv : List (List Char)),
    CommandLine optsDef (opts.map RunOption.event) argv.tail →
    (Succeeds files argv errno ↔ ∀ o ∈ opts, Good o) := by
  intro claimed
  have line := line_twoSizes "x4M".toList "4M".toList
  have succeeds : Succeeds (fun _ => none) (twoSizes "x4M".toList "4M".toList) 0 :=
    (succeeds_iff line (fun _ => none) 0).mpr (by decide)
  have good := (claimed (fun _ => none) 0 _ _ line).mp succeeds
  exact absurd (good (.mem "x4M".toList) (by simp)) (by decide)

end MiniKvm.Guarantees.RunVerdict
