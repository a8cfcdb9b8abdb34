import MiniKvm.Source.RunArgs

/-!
# What does parse_mem make of a size?

A size that is written out and fits is computed, page-rounded. One that does not fit wraps on the way,
in the conversion, the shift or the rounding, and is taken all the same; and so is a unit without a
number. The length of the argument is 32 bits wide.
-/
namespace MiniKvm.Guarantees.MemorySizes
open Source Source.Strings Source.RunArgs

/-! ## Sizes -/

inductive MemUnit where
  | bytes | kilo | mega | giga
  deriving DecidableEq, Repr

namespace MemUnit

def suffix : MemUnit → List Char
  | bytes => []
  | kilo => ['K']
  | mega => ['M']
  | giga => ['G']

/-- The unit is two to this power. -/
def shift : MemUnit → Nat
  | bytes => 0
  | kilo => 10
  | mega => 20
  | giga => 30

def scale (unit : MemUnit) : UInt64 := .ofNat unit.shift

end MemUnit

/-- The least multiple of a page from this size on. -/
def roundUp (size : Nat) : Nat := (size + (pageSize - 1)) / pageSize * pageSize

/-- What a number and a unit ask for. -/
def sizeOf (digits : List Char) (unit : MemUnit) : Nat := decimal digits * 2 ^ unit.shift

/-- A text that is a run of digits, possibly of none, and a unit. -/
structure Spells (text digits : List Char) (unit : MemUnit) : Prop where
  text_eq : text = digits ++ unit.suffix
  digits_all : digits.all isDigit = true

/-- A size in digits that can be represented, page-rounded. -/
def Representable (arg : List Char) : Prop :=
  ∃ digits unit, Spells arg digits unit ∧ digits ≠ [] ∧ roundUp (sizeOf digits unit) < 2 ^ 64

/-- parse_mem succeeds with the least multiple of a page. -/
structure Computes (size : Nat) (parsed : ParsedMem) : Prop where
  ret : parsed.ret = MiniKVMError.success.code
  least : IsLeast {m | pageSize ∣ m ∧ size ≤ m} parsed.mem.toNat

/-- parse_mem fails, and leaves `*mem` alone. -/
structure Refuses (mem : UInt64) (parsed : ParsedMem) : Prop where
  ret : parsed.ret ≠ MiniKVMError.success.code
  kept : parsed.mem = mem

/-- The part of an argument that parse_mem looks at, but for its number: `arg_len` is a uint32_t. -/
def looked (arg : List Char) : List Char := arg.take (arg.length % 2 ^ 32)

/-- The part looked at is empty, or not digits and a unit. -/
def Malformed (arg : List Char) : Prop :=
  looked arg = [] ∨ ¬ ∃ digits unit, Spells (looked arg) digits unit

/-! ### Pages -/

theorem roundUp_isLeast (size : Nat) : IsLeast {m | pageSize ∣ m ∧ size ≤ m} (roundUp size) := by
  have up : roundUp size = (size + 4095) / 4096 * 4096 := rfl
  rw [up, show pageSize = 4096 from rfl]
  constructor
  · exact ⟨Nat.dvd_mul_left _ _, by omega⟩
  · rintro m ⟨⟨k, rfl⟩, le⟩
    omega

theorem isLeast_iff {size m : Nat} :
    IsLeast {m | pageSize ∣ m ∧ size ≤ m} m ↔ m = roundUp size :=
  ⟨fun least => least.unique (roundUp_isLeast size), fun same => same ▸ roundUp_isLeast size⟩

/-- The rounding wraps where the next page is behind 2^64. -/
theorem alignedToPages_toNat (size : UInt64) :
    (alignedToPages size).toNat = roundUp size.toNat % 2 ^ 64 := by
  have page : (UInt64.ofNat pageSize).toNat = 4096 := rfl
  have small := size.toNat_lt
  have rest : (size % UInt64.ofNat pageSize).toNat = size.toNat % 4096 := by
    rw [UInt64.toNat_mod, page]
  have down : (size - size % UInt64.ofNat pageSize).toNat = size.toNat - size.toNat % 4096 := by
    rw [UInt64.toNat_sub_of_le, rest]
    rw [UInt64.le_iff_toNat_le, rest]
    exact Nat.mod_le _ _
  have up : roundUp size.toNat = (size.toNat + 4095) / 4096 * 4096 := rfl
  unfold alignedToPages
  split
  · next aligned =>
    have zero : size.toNat % 4096 = 0 := by
      rw [← rest]
      exact congrArg UInt64.toNat aligned
    omega
  · next apart =>
    have rem : size.toNat % 4096 ≠ 0 := by
      rw [← rest]
      exact fun zero => apart (UInt64.toNat_inj.mp zero)
    rw [UInt64.toNat_add, page, down, up]
    omega

/-! ## parse_mem -/

variable {arg digits : List Char} {unit : MemUnit} {mem : UInt64} {errno : Int}

/-- The unit that the switch sees in a character. -/
def unitOf (c : Char) : Option MemUnit :=
  if c = 'K' then some .kilo
  else if c = 'M' then some .mega
  else if c = 'G' then some .giga
  else if isDigit c then some .bytes
  else none

theorem unitScale_cons (c : Char) (rest : List Char) :
    unitScale (c :: rest) = (unitOf c).map MemUnit.scale := by
  unfold unitScale unitOf
  split
  · next same =>
    cases same
    rfl
  · next same =>
    cases same
    rfl
  · next same =>
    cases same
    rfl
  · next notK notM notG =>
    have other : c ≠ 'K' ∧ c ≠ 'M' ∧ c ≠ 'G' :=
      ⟨fun same => notK rest (by rw [same]), fun same => notM rest (by rw [same]),
        fun same => notG rest (by rw [same])⟩
    rw [if_neg other.1, if_neg other.2.1, if_neg other.2.2, miniKvmIsUint_eq]
    cases digit : isDigit c
    · simp [digit]
    · simp [digit]
      rfl

theorem unitOf_suffix {c : Char} (unit_eq : unitOf c = some unit) :
    unit = .bytes ∧ isDigit c = true ∨ unit.suffix = [c] := by
  unfold unitOf at unit_eq
  split at unit_eq
  · next same =>
    cases unit_eq
    exact .inr (same ▸ rfl)
  · split at unit_eq
    · next same =>
      cases unit_eq
      exact .inr (same ▸ rfl)
    · split at unit_eq
      · next same =>
        cases unit_eq
        exact .inr (same ▸ rfl)
      · split at unit_eq
        · next digit =>
          cases unit_eq
          exact .inl ⟨rfl, digit⟩
        · cases unit_eq

/-- The last character decides on the unit. -/
theorem unitOf_of_spells {q : List Char} {c : Char} (spells : Spells (q ++ [c]) digits unit) :
    unitOf c = some unit ∧ (q ++ [c]).take (q.length + 1 - unit.suffix.length) = digits := by
  obtain ⟨text, all⟩ := spells
  have digit_unit (digit : isDigit c = true) : unitOf c = some .bytes := by
    have notK : c ≠ 'K' := by
      rintro rfl
      exact absurd digit (by decide)
    have notM : c ≠ 'M' := by
      rintro rfl
      exact absurd digit (by decide)
    have notG : c ≠ 'G' := by
      rintro rfl
      exact absurd digit (by decide)
    rw [unitOf, if_neg notK, if_neg notM, if_neg notG, if_pos digit]
  have shorten (u : Char) (suffix : unit.suffix = [u]) : q = digits ∧ c = u := by
    rw [suffix] at text
    obtain ⟨same, last⟩ := List.append_inj' text rfl
    exact ⟨same, List.singleton_inj.mp last⟩
  cases unit with
  | bytes =>
    have same : digits = q ++ [c] := by simpa [MemUnit.suffix] using text.symm
    subst same
    refine ⟨digit_unit (List.all_eq_true.mp all c (by simp)), ?_⟩
    simp [MemUnit.suffix]
  | kilo =>
    obtain ⟨rfl, rfl⟩ := shorten 'K' rfl
    exact ⟨rfl, by simp [MemUnit.suffix]⟩
  | mega =>
    obtain ⟨rfl, rfl⟩ := shorten 'M' rfl
    exact ⟨rfl, by simp [MemUnit.suffix]⟩
  | giga =>
    obtain ⟨rfl, rfl⟩ := shorten 'G' rfl
    exact ⟨rfl, by simp [MemUnit.suffix]⟩

/-- And so does the check of the digits before it. -/
theorem spells_of_unitOf {q : List Char} {c : Char} (unit_eq : unitOf c = some unit)
    (all : ((q ++ [c]).take (q.length + 1 - unit.suffix.length)).all isDigit = true) :
    Spells (q ++ [c]) ((q ++ [c]).take (q.length + 1 - unit.suffix.length)) unit := by
  refine ⟨?_, all⟩
  rcases unitOf_suffix unit_eq with ⟨rfl, -⟩ | suffix
  · simp [MemUnit.suffix]
  · simp [suffix]

theorem argLen_toNat (arg : List Char) : (UInt32.ofNat arg.length).toNat = arg.length % 2 ^ 32 := by
  rw [UInt32.toNat_ofNat']

/-- Where something is looked at, it has a last character, which is the one the switch is on. -/
theorem exists_last (nonempty : looked arg ≠ []) :
    ∃ q c rest, looked arg = q ++ [c] ∧ q.length + 1 = arg.length % 2 ^ 32 ∧
      arg.drop (UInt32.ofNat arg.length - 1).toNat = c :: rest := by
  have le : arg.length % 2 ^ 32 ≤ arg.length := Nat.mod_le _ _
  have pos : 0 < arg.length % 2 ^ 32 := by
    by_contra zero
    rw [looked, Nat.eq_zero_of_not_pos zero, List.take_zero] at nonempty
    exact nonempty rfl
  have one : 1 ≤ UInt32.ofNat arg.length := by
    rw [UInt32.le_iff_toNat_le, argLen_toNat]
    exact pos
  have before : (UInt32.ofNat arg.length - 1).toNat = arg.length % 2 ^ 32 - 1 := by
    rw [UInt32.toNat_sub_of_le _ _ one, argLen_toNat]
    rfl
  obtain ⟨n, len⟩ : ∃ n, arg.length % 2 ^ 32 = n + 1 := ⟨arg.length % 2 ^ 32 - 1, by omega⟩
  have bound : n < arg.length := by omega
  refine ⟨arg.take n, arg[n], arg.drop (n + 1), ?_, ?_, ?_⟩
  · rw [looked, len, List.take_succ_eq_append_getElem bound]
  · rw [List.length_take, len]
    omega
  · rw [before, len, Nat.add_sub_cancel, List.drop_eq_getElem_cons bound]

/-- parse_mem by what it looks at. -/
theorem parseMem_eq {q rest : List Char} {c : Char} (text : looked arg = q ++ [c])
    (len : q.length + 1 = arg.length % 2 ^ 32)
    (last : arg.drop (UInt32.ofNat arg.length - 1).toNat = c :: rest) :
    parseMem arg mem errno =
      match unitOf c with
      | none => ⟨MiniKVMError.argsFailed.code, mem, errno⟩
      | some unit =>
        if ((q ++ [c]).take (q.length + 1 - unit.suffix.length)).all isDigit = true then
          ⟨MiniKVMError.success.code, alignedToPages ((strtoul arg errno).value <<< unit.scale),
            (strtoul arg errno).errno⟩
        else ⟨-1, mem, errno⟩ := by
  have nonzero : UInt32.ofNat arg.length ≠ 0 := by
    intro zero
    have := congrArg UInt32.toNat zero
    rw [argLen_toNat, ← len] at this
    cases this
  simp only [parseMem, if_neg nonzero, last, unitScale_cons]
  cases unit_eq : unitOf c with
  | none => rfl
  | some unit =>
    have suffix_length : (unitLength unit.scale).toNat = unit.suffix.length := by
      cases unit <;> rfl
    have offset : (UInt32.ofNat arg.length - unitLength unit.scale).toNat =
        q.length + 1 - unit.suffix.length := by
      have short : unit.suffix.length ≤ 1 := by cases unit <;> decide
      rw [UInt32.toNat_sub_of_le, argLen_toNat, suffix_length, len]
      rw [UInt32.le_iff_toNat_le, argLen_toNat, suffix_length, ← len]
      omega
    have digits : miniKvmIsUint arg (q.length + 1 - unit.suffix.length) =
        ((q ++ [c]).take (q.length + 1 - unit.suffix.length)).all isDigit := by
      rw [miniKvmIsUint_eq, ← text, looked, List.take_take, Nat.min_eq_left (by omega)]
    simp only [Option.map_some, offset, miniKvmToUint, digits]
    split <;> rfl

theorem parseMem_refuses (malformed : Malformed arg) : Refuses mem (parseMem arg mem errno) := by
  have minusOne : (-1 : Int32) ≠ MiniKVMError.success.code := by decide
  have argsFailed : MiniKVMError.argsFailed.code ≠ MiniKVMError.success.code := by decide
  by_cases empty : looked arg = []
  · have zero : UInt32.ofNat arg.length = 0 := by
      refine UInt32.toNat_inj.mp ?_
      have le : arg.length % 2 ^ 32 ≤ arg.length := Nat.mod_le _ _
      have length := congrArg List.length empty
      rw [looked, List.length_take, Nat.min_eq_left le] at length
      rw [argLen_toNat, length]
      rfl
    simp only [parseMem, zero, if_true]
    exact ⟨minusOne, rfl⟩
  · obtain ⟨q, c, rest, text, len, last⟩ := exists_last empty
    rw [parseMem_eq text len last]
    cases unit_eq : unitOf c with
    | none => exact ⟨argsFailed, rfl⟩
    | some unit =>
      simp only
      split
      · next all =>
        refine absurd ?_ (malformed.resolve_left empty)
        exact ⟨_, unit, text ▸ spells_of_unitOf unit_eq all⟩
      · exact ⟨minusOne, rfl⟩

theorem parseMem_accepts (mem : UInt64) (errno : Int) (nonempty : looked arg ≠ [])
    (spells : Spells (looked arg) digits unit) :
    (parseMem arg mem errno).ret = MiniKVMError.success.code ∧
      (parseMem arg mem errno).mem = alignedToPages ((strtoul arg 0).value <<< unit.scale) := by
  obtain ⟨q, c, rest, text, len, last⟩ := exists_last nonempty
  rw [text] at spells
  obtain ⟨unit_eq, number⟩ := unitOf_of_spells spells
  have all : ((q ++ [c]).take (q.length + 1 - unit.suffix.length)).all isDigit = true := by
    rw [number]
    exact spells.digits_all
  rw [parseMem_eq text len last, unit_eq]
  simp only [if_pos all, true_and]
  rw [strtoul_value arg errno 0]

/-! ## Sizes that fit -/

theorem suffix_ends (unit : MemUnit) : ∀ c ∈ unit.suffix.head?, Ends c := by
  intro c first
  cases unit with
  | bytes => cases first
  | kilo =>
    cases first
    exact ⟨by decide, by decide, by decide, by decide⟩
  | mega =>
    cases first
    exact ⟨by decide, by decide, by decide, by decide⟩
  | giga =>
    cases first
    exact ⟨by decide, by decide, by decide, by decide⟩

theorem le_roundUp (size : Nat) : size ≤ roundUp size := (roundUp_isLeast size).1.2

theorem decimal_le_sizeOf (digits : List Char) (unit : MemUnit) :
    decimal digits ≤ sizeOf digits unit :=
  Nat.le_mul_of_pos_right _ (Nat.two_pow_pos _)

theorem value_toNat (unit : MemUnit) (all : digits.all isDigit = true)
    (small : decimal digits < 2 ^ 64) :
    (strtoul (digits ++ unit.suffix) 0).value.toNat = decimal digits := by
  rw [strtoul_digits all (suffix_ends unit), Strtoul.ofNat, if_neg (by omega)]
  exact UInt64.toNat_ofNat_of_lt' small

/-- The shift by a unit and the rounding, for a size that fits. -/
theorem aligned_shift {value : UInt64} (unit : MemUnit)
    (fits : roundUp (value.toNat * 2 ^ unit.shift) < 2 ^ 64) :
    (alignedToPages (value <<< unit.scale)).toNat = roundUp (value.toNat * 2 ^ unit.shift) := by
  have scale : unit.scale.toNat % 64 = unit.shift := by cases unit <;> rfl
  have small := Nat.lt_of_le_of_lt (le_roundUp _) fits
  rw [alignedToPages_toNat, UInt64.toNat_shiftLeft, scale, Nat.shiftLeft_eq, Nat.mod_eq_of_lt small,
    Nat.mod_eq_of_lt fits]

/-- A size in digits that fits is computed, whatever `*mem` and `errno` were before. The kernel hands
a process no argument as long as 2^32. -/
theorem parseMem_computes (digits : List Char) (unit : MemUnit) (mem : UInt64) (errno : Int)
    (short : (digits ++ unit.suffix).length < 2 ^ 32) (nonempty : digits ≠ [])
    (all : digits.all isDigit = true) (fits : roundUp (sizeOf digits unit) < 2 ^ 64) :
    Computes (sizeOf digits unit) (parseMem (digits ++ unit.suffix) mem errno) := by
  have small : decimal digits < 2 ^ 64 :=
    Nat.lt_of_le_of_lt ((decimal_le_sizeOf digits unit).trans (le_roundUp _)) fits
  have value := value_toNat unit all small
  have whole : looked (digits ++ unit.suffix) = digits ++ unit.suffix := by
    rw [looked, Nat.mod_eq_of_lt short, List.take_length]
  have spells : Spells (looked (digits ++ unit.suffix)) digits unit := ⟨whole, all⟩
  obtain ⟨ret, stored⟩ := parseMem_accepts mem errno (by simp [whole, nonempty]) spells
  refine ⟨ret, ?_⟩
  rw [isLeast_iff, stored, aligned_shift unit (by rwa [value]), value]
  rfl

theorem fourMegabytes_computes :
    Computes (4 * 2 ^ 20) (parseMem "4M".toList 7 erange) :=
  parseMem_computes ['4'] .mega 7 erange (by decide) (by decide) (by decide) (by decide)

/-! ## What does not fit -/

theorem refuses_iff_malformed : Refuses mem (parseMem arg mem errno) ↔ Malformed arg := by
  refine ⟨fun refuses => ?_, parseMem_refuses⟩
  by_contra accepted
  obtain ⟨nonempty, spelled⟩ := not_or.mp accepted
  obtain ⟨digits, unit, spells⟩ := not_not.mp spelled
  exact refuses.ret (parseMem_accepts mem errno nonempty spells).1

/-- What cannot be represented is refused exactly when what is looked at is empty or not a run of
digits, possibly of none, with a unit or without. -/
theorem refusesUnfit_iff (arg : List Char) (mem : UInt64) (errno : Int) :
    (¬ Representable arg → Refuses mem (parseMem arg mem errno)) ↔
      Representable arg ∨ Malformed arg := by
  rw [refuses_iff_malformed, or_iff_not_imp_left]

/-- Digits are spelled in one way. -/
theorem Spells.unique {q : List Char} {c : Char} {unit' : MemUnit} {digits' : List Char}
    (spells : Spells (q ++ [c]) digits unit) (spells' : Spells (q ++ [c]) digits' unit') :
    unit = unit' ∧ digits = digits' := by
  obtain ⟨unit_eq, number⟩ := unitOf_of_spells spells
  obtain ⟨unit_eq', number'⟩ := unitOf_of_spells spells'
  cases unit_eq.symm.trans unit_eq'
  exact ⟨rfl, number.symm.trans number'⟩

/-- A unit alone is a size of 0, and the greatest number of 64 bits is rounded to 0. -/
theorem unfit_accepted :
    (¬ Representable "K".toList ∧ ¬ Refuses 7 (parseMem "K".toList 7 0)) ∧
      ¬ Representable "18446744073709551615".toList ∧
        ¬ Refuses 7 (parseMem "18446744073709551615".toList 7 0) := by
  have unit_alone : Spells ([] ++ ['K']) [] .kilo := ⟨rfl, rfl⟩
  have greatest : Spells ("1844674407370955161".toList ++ ['5'])
      "18446744073709551615".toList .bytes := ⟨by decide, by decide⟩
  refine ⟨⟨?_, fun refuses => refuses.ret rfl⟩, ?_, fun refuses => refuses.ret (by decide)⟩
  · rintro ⟨digits, unit, spells, nonempty, -⟩
    obtain ⟨-, rfl⟩ := unit_alone.unique spells
    exact nonempty rfl
  · rintro ⟨digits, unit, spells, -, fits⟩
    obtain ⟨rfl, rfl⟩ := greatest.unique spells
    exact absurd fits (by decide)

end MiniKvm.Guarantees.MemorySizes
