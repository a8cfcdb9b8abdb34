import Mathlib

/-!
# getopt_long

The scan of an argument vector by getopt_long, as the values its calls return up to -1: short
options with the text behind them or the next argument, clusters of short options, long options by
name or by an abbreviation that stands for one of them, operands (stepped over, as without
POSIXLY_CORRECT) and `--`. `Written` is the grammar: the ways a user can write one option.
-/
namespace MiniKvm.Lib.Getopt

/-- Whether an option takes an argument. -/
inductive Arity where
  | none | optional | required
  deriving DecidableEq, Repr

/-- `struct option` with a NULL flag. -/
structure LongOption where
  name : List Char
  arity : Arity
  val : Char
  deriving DecidableEq, Repr

structure Spec where
  optstring : List Char
  longopts : List LongOption

/-- What one call of getopt_long returns: an option with `optarg`, or `'?'`. -/
inductive Event where
  | option (c : Char) (optarg : Option (List Char))
  | bad
  deriving DecidableEq, Repr

/-- The colons behind a character of the option string. -/
def arityOfColons : List Char → Arity
  | ':' :: ':' :: _ => .optional
  | ':' :: _ => .required
  | _ => .none

def shortArity (c : Char) : List Char → Option Arity
  | [] => none
  | d :: rest =>
    if c = d ∧ c ≠ ':' ∧ c ≠ ';' then some (arityOfColons rest) else shortArity c rest

/-- The option of this name, or the one that the name abbreviates. Candidates that agree are one. -/
def findLong (name : List Char) (longopts : List LongOption) : Option LongOption :=
  match longopts.find? (·.name = name) with
  | some o => some o
  | none =>
    match longopts.filter fun o => name.isPrefixOf o.name with
    | [] => none
    | o :: others => if others.all fun p => p.arity = o.arity ∧ p.val = o.val then some o else none

/-- The options of one argument, and the one at its end that takes the next argument. -/
structure Scanned where
  events : List Event
  wants : Option Char
  deriving DecidableEq

def Scanned.preceded (e : Event) (s : Scanned) : Scanned := { s with events := e :: s.events }

/-- Short options, from `nextchar` on. -/
def scanShort (spec : Spec) : List Char → Scanned
  | [] => ⟨[], none⟩
  | c :: rest =>
    match shortArity c spec.optstring with
    | none => (scanShort spec rest).preceded .bad
    | some .none => (scanShort spec rest).preceded (.option c none)
    | some .optional => ⟨[.option c (if rest = [] then none else some rest)], none⟩
    | some .required => if rest = [] then ⟨[], some c⟩ else ⟨[.option c (some rest)], none⟩

/-- A long option, behind its dashes. -/
def scanLong (spec : Spec) (text : List Char) : Scanned :=
  match findLong (text.takeWhile (· ≠ '=')) spec.longopts, text.dropWhile (· ≠ '=') with
  | none, _ => ⟨[.bad], none⟩
  | some o, _ :: value =>
    if o.arity = .none then ⟨[.bad], none⟩ else ⟨[.option o.val (some value)], none⟩
  | some o, [] => if o.arity = .required then ⟨[], some o.val⟩ else ⟨[.option o.val none], none⟩

def scan (spec : Spec) : List Char → Scanned
  | '-' :: '-' :: text => scanLong spec text
  | '-' :: c :: rest => scanShort spec (c :: rest)
  | _ => ⟨[], none⟩

/-- The values of the calls on `argv`, behind `argv[0]`. -/
def getoptLong (spec : Spec) : List (List Char) → List Event
  | [] => []
  | arg :: rest =>
    if arg = ['-', '-'] then []
    else (scan spec arg).events ++
      match (scan spec arg).wants with
      | none => getoptLong spec rest
      | some c =>
        match rest with
        | [] => [.bad]
        | value :: rest => .option c (some value) :: getoptLong spec rest

/-! ## The grammar -/

/-- The ways to write an option and its argument. -/
inductive Written (spec : Spec) : Event → List (List Char) → Prop
  | attached {c : Char} {arity : Arity} {value : List Char}
      (known : shortArity c spec.optstring = some arity) (takes : arity ≠ .none) (plain : c ≠ '-')
      (nonempty : value ≠ []) : Written spec (.option c (some value)) ['-' :: c :: value]
  | apart {c : Char} {value : List Char} (known : shortArity c spec.optstring = some .required)
      (plain : c ≠ '-') : Written spec (.option c (some value)) [['-', c], value]
  | bare {c : Char} {arity : Arity} (known : shortArity c spec.optstring = some arity)
      (free : arity ≠ .required) (plain : c ≠ '-') : Written spec (.option c none) [['-', c]]
  | long {name value : List Char} {o : LongOption} (known : findLong name spec.longopts = some o)
      (takes : o.arity ≠ .none) (plain : '=' ∉ name) :
      Written spec (.option o.val (some value)) ['-' :: '-' :: (name ++ '=' :: value)]
  | longApart {name value : List Char} {o : LongOption}
      (known : findLong name spec.longopts = some o) (takes : o.arity = .required)
      (plain : '=' ∉ name) (nonempty : name ≠ []) :
      Written spec (.option o.val (some value)) ['-' :: '-' :: name, value]
  | longBare {name : List Char} {o : LongOption} (known : findLong name spec.longopts = some o)
      (free : o.arity ≠ .required) (plain : '=' ∉ name) (nonempty : name ≠ []) :
      Written spec (.option o.val none) ['-' :: '-' :: name]

/-- An argument vector of options only. -/
inductive CommandLine (spec : Spec) : List Event → List (List Char) → Prop
  | nil : CommandLine spec [] []
  | cons {e : Event} {es : List Event} {args rest : List (List Char)} (first : Written spec e args)
      (others : CommandLine spec es rest) : CommandLine spec (e :: es) (args ++ rest)

variable {spec : Spec}

theorem scan_short {c : Char} {rest : List Char} (plain : c ≠ '-') :
    scan spec ('-' :: c :: rest) = scanShort spec (c :: rest) := by
  unfold scan
  split
  · next same => simp_all
  · next same => simp_all
  · next other => exact absurd rfl (other c rest)

theorem name_of_long {name value : List Char} (plain : '=' ∉ name) :
    (name ++ '=' :: value).takeWhile (· ≠ '=') = name ∧
      (name ++ '=' :: value).dropWhile (· ≠ '=') = '=' :: value := by
  have all : ∀ c ∈ name, decide (c ≠ '=') = true := fun c mem =>
    decide_eq_true fun same => plain (same ▸ mem)
  rw [List.takeWhile_append_of_pos all, List.dropWhile_append_of_pos all]
  simp

theorem name_of_bare {name : List Char} (plain : '=' ∉ name) :
    name.takeWhile (· ≠ '=') = name ∧ name.dropWhile (· ≠ '=') = [] := by
  have all : ∀ c ∈ name, decide (c ≠ '=') = true := fun c mem =>
    decide_eq_true fun same => plain (same ▸ mem)
  exact ⟨List.takeWhile_eq_self_iff.mpr all, List.dropWhile_eq_nil_iff.mpr all⟩

/-- An option that is written out is what the next call returns. -/
theorem getoptLong_written {e : Event} {args rest : List (List Char)} (written : Written spec e args) :
    getoptLong spec (args ++ rest) = e :: getoptLong spec rest := by
  cases written with
  | @attached c arity value known takes plain nonempty =>
    have scanned : scan spec ('-' :: c :: value) = ⟨[.option c (some value)], none⟩ := by
      rw [scan_short plain, scanShort, known]
      cases arity <;> simp_all
    simp [getoptLong, scanned, plain]
  | @apart c value known plain =>
    have scanned : scan spec ['-', c] = ⟨[], some c⟩ := by
      rw [scan_short plain, scanShort, known]
      rfl
    simp [getoptLong, scanned, plain]
  | @bare c arity known free plain =>
    have scanned : scan spec ['-', c] = ⟨[.option c none], none⟩ := by
      rw [scan_short plain, scanShort, known]
      cases arity <;> simp_all [scanShort, Scanned.preceded]
    simp [getoptLong, scanned, plain]
  | @long name value o known takes plain =>
    have scanned : scan spec ('-' :: '-' :: (name ++ '=' :: value)) =
        ⟨[.option o.val (some value)], none⟩ := by
      rw [scan, scanLong, (name_of_long plain).1, (name_of_long plain).2, known]
      simp [takes]
    simp [getoptLong, scanned]
  | @longApart name value o known takes plain nonempty =>
    have scanned : scan spec ('-' :: '-' :: name) = ⟨[], some o.val⟩ := by
      rw [scan, scanLong, (name_of_bare plain).1, (name_of_bare plain).2, known]
      simp [takes]
    simp [getoptLong, scanned, nonempty]
  | @longBare name o known free plain nonempty =>
    have scanned : scan spec ('-' :: '-' :: name) = ⟨[.option o.val none], none⟩ := by
      rw [scan, scanLong, (name_of_bare plain).1, (name_of_bare plain).2, known]
      simp [free]
    simp [getoptLong, scanned, nonempty]

/-- Options that are written out are read back, in their order. -/
theorem getoptLong_commandLine {es : List Event} {argv : List (List Char)}
    (line : CommandLine spec es argv) : getoptLong spec argv = es := by
  induction line with
  | nil => rfl
  | cons first _ ih => rw [getoptLong_written first, ih]

end MiniKvm.Lib.Getopt
