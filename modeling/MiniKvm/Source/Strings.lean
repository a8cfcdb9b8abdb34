import MiniKvm.Source.Core

/-!
# Strings and numbers

mini_kvm_is_uint and mini_kvm_to_uint of core/core.c, and the strtoul they rest on. A C string is the
list of its characters, without the terminator.
-/
namespace MiniKvm.Source.Strings

def isDigit (c : Char) : Bool := decide ('0' ≤ c) && decide (c ≤ '9')

/-- The loop of mini_kvm_is_uint. -/
def isUintFrom : List Char → Nat → Bool
  | [], _ => true
  | _, 0 => true
  | c :: rest, n + 1 => isDigit c && isUintFrom rest n

def miniKvmIsUint (str : List Char) (n : Nat) : Bool :=
  if str.length = 0 ∨ n = 0 then true else isUintFrom str n

def einval : Int := 22

def erange : Int := 34

/-- A number and the `errno` behind it. -/
structure Strtoul where
  value : UInt64
  errno : Int
  deriving DecidableEq, Repr

/-- The isspace of the C locale. -/
def isSpace (c : Char) : Bool := c = ' ' || (9 ≤ c.toNat && c.toNat ≤ 13)

/-- The number in range, or ULONG_MAX. -/
def Strtoul.ofNat (negative : Bool) (value : Nat) (errno : Int) : Strtoul :=
  if 2 ^ 64 ≤ value then ⟨.ofNat (2 ^ 64 - 1), erange⟩
  else ⟨if negative then - .ofNat value else .ofNat value, errno⟩

/-- `strtoul(str, _, 10)`: blanks, a sign, digits; 0 where there are none, ULONG_MAX where they are
too many. `errno` is set in the last case only. -/
def strtoul (str : List Char) (errno : Int) : Strtoul :=
  let text := str.dropWhile isSpace
  let negative : Bool := text.head? = some '-'
  let text := if negative ∨ text.head? = some '+' then text.tail else text
  .ofNat negative (Nat.ofDigitChars 10 (text.takeWhile isDigit) 0) errno

/-- What mini_kvm_to_uint returns, leaves in `*dst`, and leaves in `errno`. -/
structure ToUint where
  ret : Int32
  dst : UInt64
  errno : Int
  deriving DecidableEq, Repr

/-- The end that is passed to strtoul is a result of it, so `n` bounds the check only. -/
def miniKvmToUint (str : List Char) (n : Nat) (dst : UInt64) (errno : Int) : ToUint :=
  if miniKvmIsUint str n then
    let read := strtoul str errno
    ⟨if read.errno = einval ∨ read.errno = erange then -1 else 0, read.value, read.errno⟩
  else ⟨-1, dst, errno⟩

theorem strtoul_value (str : List Char) (errno errno' : Int) :
    (strtoul str errno).value = (strtoul str errno').value := by
  simp only [strtoul, Strtoul.ofNat]
  split <;> split <;> rfl

/-- The number that is stored does not depend on what was there, nor on `errno`. -/
theorem miniKvmToUint_dst {str : List Char} {n : Nat} (number : miniKvmIsUint str n = true)
    (dst : UInt64) (errno : Int) : (miniKvmToUint str n dst errno).dst = (strtoul str 0).value := by
  rw [miniKvmToUint, if_pos number]
  exact strtoul_value str errno 0

/-! ## Digits -/

/-- The number that a run of decimal digits stands for. -/
def decimal (digits : List Char) : Nat := Nat.ofDigitChars 10 digits 0

/-- A character that strtoul does not skip, read or take for a sign. -/
def Ends (c : Char) : Prop := isDigit c = false ∧ isSpace c = false ∧ c ≠ '-' ∧ c ≠ '+'

theorem isUintFrom_eq (str : List Char) (n : Nat) :
    isUintFrom str n = (str.take n).all isDigit := by
  induction str generalizing n with
  | nil => simp [isUintFrom]
  | cons c rest ih =>
    cases n with
    | zero => simp [isUintFrom]
    | succ n => simp [isUintFrom, ih]

theorem miniKvmIsUint_eq (str : List Char) (n : Nat) :
    miniKvmIsUint str n = (str.take n).all isDigit := by
  unfold miniKvmIsUint
  split
  · next empty =>
    rcases empty with none | zero
    · simp [List.length_eq_zero_iff.mp none]
    · simp [zero]
  · exact isUintFrom_eq str n

theorem digit_ne {c : Char} (digit : isDigit c = true) :
    isSpace c = false ∧ c ≠ '-' ∧ c ≠ '+' ∧ c ≠ ',' := by
  have low : 48 ≤ c.toNat := by
    simp only [isDigit, Bool.and_eq_true, decide_eq_true_eq] at digit
    exact digit.1
  refine ⟨?_, ?_, ?_, ?_⟩
  · have notBlank : c ≠ ' ' := by
      rintro rfl
      exact absurd low (by decide)
    simp only [isSpace, Bool.or_eq_false_iff, decide_eq_false_iff_not, Bool.and_eq_false_iff]
    exact ⟨notBlank, .inr (by omega)⟩
  all_goals
    rintro rfl
    exact absurd low (by decide)

/-- strtoul reads the digits at the start of a text which starts with no blank and no sign. -/
theorem strtoul_start {digits rest : List Char} (all : digits.all isDigit = true)
    (stops : ∀ c ∈ rest.head?, isDigit c = false)
    (plain : ∀ c ∈ (digits ++ rest).head?, isSpace c = false ∧ c ≠ '-' ∧ c ≠ '+') (errno : Int) :
    strtoul (digits ++ rest) errno = .ofNat false (decimal digits) errno := by
  have blanks : (digits ++ rest).dropWhile isSpace = digits ++ rest := by
    cases text : digits ++ rest with
    | nil => rfl
    | cons c others =>
      rw [List.dropWhile_cons, (plain c (by rw [text]; rfl)).1]
      rfl
  have minus : (digits ++ rest).head? ≠ some '-' := fun first => (plain _ first).2.1 rfl
  have plus : (digits ++ rest).head? ≠ some '+' := fun first => (plain _ first).2.2 rfl
  have read : (digits ++ rest).takeWhile isDigit = digits := by
    rw [List.takeWhile_append_of_pos (List.all_eq_true.mp all)]
    cases rest with
    | nil => simp
    | cons c rest => simp [stops c rfl]
  simp only [strtoul, blanks, minus, plus, decide_false, Bool.false_eq_true, or_self, if_false, read,
    decimal]

/-- One digit is enough for the text to start with no blank and no sign. -/
theorem strtoul_nonempty {digits rest : List Char} (all : digits.all isDigit = true)
    (nonempty : digits ≠ []) (stops : ∀ c ∈ rest.head?, isDigit c = false) (errno : Int) :
    strtoul (digits ++ rest) errno = .ofNat false (decimal digits) errno := by
  apply strtoul_start all stops
  intro c first
  obtain ⟨d, more, rfl⟩ := List.exists_cons_of_ne_nil nonempty
  cases first
  obtain ⟨blank, minus, plus, -⟩ := digit_ne (List.all_eq_true.mp all c (by simp))
  exact ⟨blank, minus, plus⟩

/-- strtoul reads a run of digits, up to a character that ends it. -/
theorem strtoul_digits {digits rest : List Char} (all : digits.all isDigit = true)
    (ends : ∀ c ∈ rest.head?, Ends c) (errno : Int) :
    strtoul (digits ++ rest) errno = .ofNat false (decimal digits) errno := by
  have stops : ∀ c ∈ rest.head?, isDigit c = false := fun c first => (ends c first).1
  by_cases empty : digits = []
  · apply strtoul_start all stops
    intro c first
    rw [empty, List.nil_append] at first
    exact (ends c first).2
  · exact strtoul_nonempty all empty stops errno

/-! ## Values -/

theorem decimal_append (digits more : List Char) :
    decimal (digits ++ more) = 10 ^ more.length * decimal digits + decimal more := by
  rw [decimal, Nat.ofDigitChars_append, Nat.ofDigitChars_eq_ofDigitChars_zero]
  rfl

theorem decimal_cons (c : Char) (digits : List Char) :
    decimal (c :: digits) = 10 ^ digits.length * (c.toNat - '0'.toNat) + decimal digits := by
  rw [← List.singleton_append, decimal_append, decimal, Nat.ofDigitChars_cons,
    Nat.ofDigitChars_nil, Nat.mul_zero, Nat.zero_add]

/-- The digit 0 is the only one that counts nothing. -/
theorem digit_value_eq_zero {c : Char} (digit : isDigit c = true) :
    c.toNat - '0'.toNat = 0 ↔ c = '0' := by
  have low : 48 ≤ c.toNat := by
    simp only [isDigit, Bool.and_eq_true, decide_eq_true_eq] at digit
    exact digit.1
  constructor
  · intro zero
    have same : c.toNat = '0'.toNat := Nat.le_antisymm (Nat.sub_eq_zero_iff_le.mp zero) low
    exact Char.toNat_inj.mp same
  · rintro rfl
    rfl

theorem decimal_eq_zero_iff {digits : List Char} (all : digits.all isDigit = true) :
    decimal digits = 0 ↔ ∀ c ∈ digits, c = '0' := by
  induction digits with
  | nil => simp [decimal]
  | cons c digits ih =>
    rw [List.all_cons, Bool.and_eq_true] at all
    have first : 10 ^ digits.length * (c.toNat - '0'.toNat) = 0 ↔ c = '0' := by
      rw [Nat.mul_eq_zero, digit_value_eq_zero all.1]
      exact or_iff_right (Nat.pow_pos (by decide)).ne'
    rw [decimal_cons, Nat.add_eq_zero_iff, first, ih all.2, List.forall_mem_cons]

end MiniKvm.Source.Strings
