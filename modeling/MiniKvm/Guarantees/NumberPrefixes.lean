import MiniKvm.Source.IntLists

/-!
# Numbers in front of other text

mini_kvm_to_uint on strings with the same first characters. The length that it is given bounds its
check, not what strtoul reads, and `errno` is tested without having been cleared.
-/
namespace MiniKvm.Guarantees.NumberPrefixes
open Source Source.Strings Source.IntLists

/-- Two runs, of which the first succeeds just on digits in range, and with their value. -/
structure PrefixOnly (n : Nat) (str str' : List Char) (dst dst' : UInt64) (errno errno' : Int) :
    Prop where
  same : (miniKvmToUint str n dst errno).ret = (miniKvmToUint str' n dst' errno').ret
  value : (miniKvmToUint str n dst errno).ret = MiniKVMError.success.code →
    (miniKvmToUint str n dst errno).dst = (miniKvmToUint str' n dst' errno').dst
  succeeds : (miniKvmToUint str n dst errno).ret = MiniKVMError.success.code ↔
    (str.take n).all isDigit = true ∧ decimal (str.take n) ≤ 2 ^ 64 - 1
  written : (miniKvmToUint str n dst errno).ret = MiniKVMError.success.code →
    (miniKvmToUint str n dst errno).dst.toNat = decimal (str.take n)

/-- The digits behind the first `n` characters. -/
def digitsBehind (str : List Char) (n : Nat) : List Char := (str.drop n).takeWhile isDigit

/-- What is behind the first `n` characters does not count: no digit is, or there are zeros only. -/
def Cut (str : List Char) (n : Nat) : Prop :=
  digitsBehind str n = [] ∨ ∀ c ∈ str.take n ++ digitsBehind str n, c = '0'

/-- The first `n` characters are refused, or nothing else counts. -/
def Undisturbed (str : List Char) (n : Nat) (errno : Int) : Prop :=
  ¬ (str.take n).all isDigit = true ∨ 2 ^ 64 - 1 < decimal (str.take n) ∨
    Quiet errno ∧ Cut str n

/-- One run does what it should with its first `n` characters. -/
def Right (str : List Char) (n : Nat) (dst : UInt64) (errno : Int) : Prop :=
  ((miniKvmToUint str n dst errno).ret = MiniKVMError.success.code ↔
      (str.take n).all isDigit = true ∧ decimal (str.take n) ≤ 2 ^ 64 - 1) ∧
    ((miniKvmToUint str n dst errno).ret = MiniKVMError.success.code →
      (miniKvmToUint str n dst errno).dst.toNat = decimal (str.take n))

section OneRun

variable {n : Nat} {str : List Char} {dst : UInt64} {errno : Int}

theorem toUint_ret (str : List Char) (n : Nat) (dst : UInt64) (errno : Int) :
    (miniKvmToUint str n dst errno).ret = MiniKVMError.success.code ∨
      (miniKvmToUint str n dst errno).ret = -1 := by
  unfold miniKvmToUint
  split
  · simp only
    split
    · exact .inr rfl
    · exact .inl rfl
  · exact .inr rfl

theorem toUint_refuses (other : ¬ (str.take n).all isDigit = true) :
    (miniKvmToUint str n dst errno).ret ≠ MiniKVMError.success.code := by
  have refused : (-1 : Int32) ≠ MiniKVMError.success.code := by decide
  rwa [miniKvmToUint, miniKvmIsUint_eq, if_neg other]

theorem all_digits (all : (str.take n).all isDigit = true) :
    (str.take n ++ digitsBehind str n).all isDigit = true := by
  rw [List.all_append, all, digitsBehind, List.all_takeWhile]
  rfl

/-- strtoul goes on over the digits behind. -/
theorem toUint_digits (some : 1 ≤ n) (long : n ≤ str.length)
    (all : (str.take n).all isDigit = true) :
    miniKvmToUint str n dst errno =
      let read := Strtoul.ofNat false (decimal (str.take n ++ digitsBehind str n)) errno
      ⟨if read.errno = einval ∨ read.errno = erange then -1 else 0, read.value, read.errno⟩ := by
  have parts : str = (str.take n ++ digitsBehind str n) ++ (str.drop n).dropWhile isDigit := by
    rw [List.append_assoc, digitsBehind, List.takeWhile_append_dropWhile, List.take_append_drop]
  have nonempty : str.take n ++ digitsBehind str n ≠ [] := by
    apply List.append_ne_nil_of_left_ne_nil
    apply List.ne_nil_of_length_pos
    rw [List.length_take]
    omega
  have stops : ∀ c ∈ ((str.drop n).dropWhile isDigit).head?, isDigit c = false := by
    intro c first
    have stopped := List.head?_dropWhile_not isDigit (str.drop n)
    rw [first] at stopped
    exact stopped
  have read := strtoul_nonempty (all_digits all) nonempty stops errno
  rw [← parts] at read
  rw [miniKvmToUint, miniKvmIsUint_eq, if_pos all, read]

theorem toUint_success_iff (some : 1 ≤ n) (long : n ≤ str.length)
    (all : (str.take n).all isDigit = true) :
    (miniKvmToUint str n dst errno).ret = MiniKVMError.success.code ↔
      decimal (str.take n ++ digitsBehind str n) < 2 ^ 64 ∧ Quiet errno := by
  have refused : (-1 : Int32) ≠ MiniKVMError.success.code := by decide
  rw [toUint_digits some long all, Strtoul.ofNat]
  by_cases fits : 2 ^ 64 ≤ decimal (str.take n ++ digitsBehind str n)
  · rw [if_pos fits]
    refine iff_of_false ?_ (fun both => Nat.not_lt.mpr fits both.1)
    simpa only [or_true, if_true] using refused
  · rw [if_neg fits]
    by_cases quiet : Quiet errno
    · refine iff_of_true ?_ ⟨Nat.lt_of_not_le fits, quiet⟩
      simp only [if_neg (not_or.mpr quiet)]
      rfl
    · refine iff_of_false ?_ (fun both => quiet both.2)
      have loud : errno = einval ∨ errno = erange := by
        by_contra neither
        exact quiet (not_or.mp neither)
      simpa only [if_pos loud] using refused

theorem toUint_value (some : 1 ≤ n) (long : n ≤ str.length)
    (all : (str.take n).all isDigit = true)
    (fits : decimal (str.take n ++ digitsBehind str n) < 2 ^ 64) :
    (miniKvmToUint str n dst errno).dst.toNat = decimal (str.take n ++ digitsBehind str n) := by
  rw [toUint_digits some long all, Strtoul.ofNat, if_neg (Nat.not_le.mpr fits)]
  exact UInt64.toNat_ofNat_of_lt' fits

theorem le_decimal_append (digits more : List Char) :
    decimal digits ≤ decimal (digits ++ more) := by
  rw [decimal_append]
  have scale : 0 < 10 ^ more.length := Nat.pow_pos (by decide)
  exact (Nat.le_mul_of_pos_left _ scale).trans (Nat.le_add_right _ _)

/-- More digits make a larger number, but for zeros. -/
theorem decimal_append_eq_iff {digits more : List Char} (all : (digits ++ more).all isDigit = true) :
    decimal (digits ++ more) = decimal digits ↔ more = [] ∨ ∀ c ∈ digits ++ more, c = '0' := by
  have zero := decimal_eq_zero_iff all
  constructor
  · intro same
    by_cases none : more = []
    · exact .inl none
    · right
      apply zero.mp
      have longer : 10 ≤ 10 ^ more.length :=
        Nat.le_self_pow (List.length_pos_iff.mpr none).ne' 10
      have scaled : 10 * decimal digits ≤ 10 ^ more.length * decimal digits :=
        Nat.mul_le_mul_right _ longer
      have split := decimal_append digits more
      omega
  · intro shape
    rcases shape with none | zeros
    · rw [none, List.append_nil]
    · have nothing : decimal (digits ++ more) = 0 := zero.mpr zeros
      have less := le_decimal_append digits more
      omega

theorem right_iff (some : 1 ≤ n) (long : n ≤ str.length) :
    Right str n dst errno ↔ Undisturbed str n errno := by
  by_cases all : (str.take n).all isDigit = true
  · have success := @toUint_success_iff n str dst errno some long all
    have value := @toUint_value n str dst errno some long all
    have less := le_decimal_append (str.take n) (digitsBehind str n)
    have same := decimal_append_eq_iff (all_digits all)
    unfold Right Undisturbed
    rw [success]
    constructor
    · rintro ⟨succeeds, written⟩
      by_cases big : 2 ^ 64 - 1 < decimal (str.take n)
      · exact .inr (.inl big)
      · obtain ⟨fits, quiet⟩ := succeeds.mpr ⟨all, by omega⟩
        refine .inr (.inr ⟨quiet, same.mp ?_⟩)
        rw [← value fits]
        exact written ⟨fits, quiet⟩
    · intro undisturbed
      rcases undisturbed with other | big | ⟨quiet, cut⟩
      · exact absurd all other
      · refine ⟨iff_of_false ?_ ?_, ?_⟩
        · rintro ⟨fits, -⟩
          omega
        · rintro ⟨-, fits⟩
          omega
        · rintro ⟨fits, -⟩
          omega
      · have equal := same.mpr cut
        refine ⟨⟨?_, ?_⟩, ?_⟩
        · rintro ⟨fits, -⟩
          exact ⟨all, by omega⟩
        · rintro ⟨-, fits⟩
          exact ⟨by omega, quiet⟩
        · rintro ⟨fits, -⟩
          rw [value fits, equal]
  · have refuses := @toUint_refuses n str dst errno all
    refine iff_of_true ⟨iff_of_false refuses ?_, ?_⟩ (.inl all)
    · exact fun both => all both.1
    · exact fun success => absurd success refuses

end OneRun

/-- Two strings with the same first `n` characters are read alike, and as these say, exactly where
neither run is disturbed: by a digit behind them that counts, or by an `errno` from before. -/
theorem toUint_prefix_iff {n : Nat} {str str' : List Char} (some : 1 ≤ n) (long : n ≤ str.length)
    (long' : n ≤ str'.length) (agree : str.take n = str'.take n) (dst dst' : UInt64)
    (errno errno' : Int) :
    PrefixOnly n str str' dst dst' errno errno' ↔
      Undisturbed str n errno ∧ Undisturbed str' n errno' := by
  rw [← @right_iff n str dst errno some long, ← @right_iff n str' dst' errno' some long']
  unfold Right
  rw [← agree]
  constructor
  · rintro ⟨same, value, succeeds, written⟩
    rw [← same]
    refine ⟨⟨succeeds, written⟩, succeeds, fun success => ?_⟩
    rw [← value success]
    exact written success
  · rintro ⟨⟨succeeds, written⟩, succeeds', written'⟩
    have both := succeeds.trans succeeds'.symm
    refine ⟨?_, fun success => ?_, succeeds, written⟩
    · rcases toUint_ret str n dst errno with success | refused
      · rw [success, both.mp success]
      · rcases toUint_ret str' n dst' errno' with success' | refused'
        · rw [success', both.mpr success']
        · rw [refused, refused']
    · apply UInt64.toNat_inj.mp
      rw [written success, written' (both.mp success)]

/-- The 1 of "1," is read alike wherever the comma leads. -/
theorem one_in_a_list : PrefixOnly 1 ['1', ',', '2'] ['1'] 0 7 0 0 :=
  (toUint_prefix_iff (by decide) (by decide) (by decide) (by decide) 0 7 0 0).mpr
    ⟨.inr (.inr ⟨by decide, .inl (by decide)⟩), .inr (.inr ⟨by decide, .inl (by decide)⟩)⟩

/-- The first character of "12" is read as 12, and that of "1" not at all where ERANGE is left from
before. -/
theorem behind_counts : ['1', '2'].take 1 = ['1'].take 1 ∧
    ¬ PrefixOnly 1 ['1', '2'] ['1'] 0 0 0 0 ∧ ¬ PrefixOnly 1 ['1'] ['1'] 0 0 0 erange := by
  refine ⟨rfl, fun prefixOnly => ?_, fun prefixOnly => ?_⟩
  · exact absurd (prefixOnly.value (by decide)) (by decide)
  · exact absurd prefixOnly.same (by decide)

end MiniKvm.Guarantees.NumberPrefixes
