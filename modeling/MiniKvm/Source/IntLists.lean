import MiniKvm.Lib.WhileLoop
import MiniKvm.Source.Containers
import MiniKvm.Source.Core
import MiniKvm.Source.Strings

/-!
# Lists of numbers

mini_kvm_parse_int_list and mini_kvm_parse_cpu_list of core/core.c. No string is longer than memory,
so a size_t does not wrap.
-/
namespace MiniKvm.Source.IntLists
open Lib Strings Containers

/-! ## mini_kvm_parse_int_list -/

/-- What mini_kvm_parse_int_list returns, leaves in `*list`, and leaves in `errno`. -/
structure IntList where
  ret : Int32
  list : Vec
  errno : Int
  deriving DecidableEq, Repr

/-- The inner loop, on the text from `index` on: `offset` grows over digits, and not past the end.
There are enough rounds for the text. -/
def window (text : List Char) : Nat → Nat → Nat
  | 0, offset => offset
  | rounds + 1, offset =>
    if offset < text.length ∧ miniKvmIsUint text offset then window text rounds (offset + 1)
    else offset

/-- The outer loop, which takes a character or more in each round. -/
def parseIntListFrom : Nat → List Char → Vec → Int → IntList
  | 0, _, list, errno => ⟨MiniKVMError.success.code, list, errno⟩
  | rounds + 1, text, list, errno =>
    if text = [] then ⟨MiniKVMError.success.code, list, errno⟩
    else
      let offset := window text text.length 1
      if offset < text.length ∧ text[offset - 1]? ≠ some ',' then
        ⟨MiniKVMError.argsFailed.code, list, errno⟩
      else
        let n := offset - if 0 < text.length - offset then 1 else 0
        let read := miniKvmToUint text n 0 errno
        if read.ret ≠ MiniKVMError.success.code then ⟨read.ret, list, read.errno⟩
        else parseIntListFrom rounds (text.drop offset) (vecAppend list read.dst) read.errno

def miniKvmParseIntList (rawList : List Char) (errno : Int) : IntList :=
  parseIntListFrom rawList.length rawList (vecResize vecNew 4) errno

/-! ## What is read -/

/-- The elements of a list are the texts between the commas. -/
def fields (text : List Char) : List (List Char) := text.splitOn ','

/-- The values of the elements. -/
def numbers (text : List Char) : List UInt64 := (fields text).map fun field => .ofNat (decimal field)

/-- Every element is a run of digits and in range, and the last one is not empty. -/
structure Readable (text : List Char) : Prop where
  digits : ∀ field ∈ fields text, field.all isDigit = true
  fits : ∀ field ∈ fields text, decimal field < 2 ^ 64
  ends : (fields text).getLast? ≠ some []

theorem readable_iff (text : List Char) :
    Readable text ↔ (∀ field ∈ fields text, field.all isDigit = true) ∧
      (∀ field ∈ fields text, decimal field < 2 ^ 64) ∧ (fields text).getLast? ≠ some [] :=
  ⟨fun ⟨digits, fits, ends⟩ => ⟨digits, fits, ends⟩,
    fun ⟨digits, fits, ends⟩ => ⟨digits, fits, ends⟩⟩

instance (text : List Char) : Decidable (Readable text) := decidable_of_iff _ (readable_iff text).symm

/-- With this `errno`, a number that strtoul reads is not taken for an error. -/
def Quiet (errno : Int) : Prop := errno ≠ einval ∧ errno ≠ erange

instance (errno : Int) : Decidable (Quiet errno) := inferInstanceAs (Decidable (_ ∧ _))

theorem digits_no_comma {digits : List Char} (all : digits.all isDigit = true) : ',' ∉ digits :=
  fun comma => (digit_ne (List.all_eq_true.mp all _ comma)).2.2.2 rfl

theorem fields_ne_nil (text : List Char) : fields text ≠ [] := List.splitOn_ne_nil ',' text

theorem length_numbers (text : List Char) : (numbers text).length = (fields text).length :=
  List.length_map _

theorem fields_digits {digits : List Char} (all : digits.all isDigit = true) :
    fields digits = [digits] :=
  List.splitOn_eq_singleton (digits_no_comma all)

theorem fields_comma {digits : List Char} (all : digits.all isDigit = true) (more : List Char) :
    fields (digits ++ ',' :: more) = digits :: fields more :=
  List.splitOn_append_cons_self_of_not_mem (digits_no_comma all) more

/-- A character other than a comma is in one of the elements. -/
theorem exists_field {text : List Char} {c : Char} (inside : c ∈ text) (other : c ≠ ',') :
    ∃ field ∈ fields text, c ∈ field := by
  induction text with
  | nil => cases inside
  | cons d text ih =>
    obtain ⟨field, others, parts⟩ := List.exists_cons_of_ne_nil (fields_ne_nil text)
    rw [fields, List.splitOn_cons_eq_if_modifyHead]
    rw [fields] at parts
    by_cases comma : d = ','
    · rw [if_pos (by simp [comma])]
      have behind : c ∈ text := (List.mem_cons.mp inside).resolve_left fun same =>
        other (same.trans comma)
      obtain ⟨field, member, found⟩ := ih behind
      exact ⟨field, List.mem_cons_of_mem _ member, found⟩
    · rw [if_neg (by simpa using comma), parts, List.modifyHead_cons]
      rcases List.mem_cons.mp inside with rfl | behind
      · exact ⟨c :: field, by simp, by simp⟩
      · obtain ⟨found, member, inFound⟩ := ih behind
        rw [fields, parts] at member
        rcases List.mem_cons.mp member with rfl | member
        · exact ⟨d :: found, by simp, List.mem_cons_of_mem _ inFound⟩
        · exact ⟨found, List.mem_cons_of_mem _ member, inFound⟩

/-- The inner loop stops behind the character that ends the digits, or at the end of the text. -/
theorem window_eq {digits : List Char} (all : digits.all isDigit = true) (rest : List Char)
    (ends : ∀ c ∈ rest.head?, isDigit c = false) (rounds : Nat) {offset : Nat}
    (le : offset ≤ min (digits ++ rest).length (digits.length + 1))
    (enough : min (digits ++ rest).length (digits.length + 1) ≤ offset + rounds) :
    window (digits ++ rest) rounds offset = min (digits ++ rest).length (digits.length + 1) := by
  induction rounds generalizing offset with
  | zero =>
    rw [window]
    omega
  | succ rounds ih =>
    rw [window]
    by_cases inside : offset < min (digits ++ rest).length (digits.length + 1)
    · have number : miniKvmIsUint (digits ++ rest) offset = true := by
        rw [miniKvmIsUint_eq, List.take_append_of_le_length (by omega), List.all_eq_true]
        exact fun c member => List.all_eq_true.mp all c (List.mem_of_mem_take member)
      rw [if_pos ⟨by omega, number⟩]
      exact ih (by omega) (by omega)
    · have here : offset = min (digits ++ rest).length (digits.length + 1) := by omega
      rw [if_neg ?_, ← here]
      rintro ⟨short, number⟩
      -- The end has not been reached, so the character that ends the digits is in the window.
      have behind : offset = digits.length + 1 := by omega
      obtain ⟨c, more, rfl⟩ : ∃ c more, rest = c :: more := by
        cases rest with
        | nil => simp at short; omega
        | cons c more => exact ⟨c, more, rfl⟩
      have digit := List.all_eq_true.mp (miniKvmIsUint_eq _ _ ▸ number) c (by
        rw [behind, List.take_length_add_append]
        simp)
      rw [ends c rfl] at digit
      cases digit

section Rounds

variable {digits more : List Char} {rounds : Nat} {c : Char}

/-- The element is the last one. -/
theorem parseIntListFrom_last (all : digits.all isDigit = true) (nonempty : digits ≠ [])
    (list : Vec) (errno : Int) :
    parseIntListFrom (rounds + 1) digits list errno =
      let read := miniKvmToUint digits digits.length 0 errno
      if read.ret ≠ MiniKVMError.success.code then ⟨read.ret, list, read.errno⟩
      else ⟨MiniKVMError.success.code, vecAppend list read.dst, read.errno⟩ := by
  have some : 0 < digits.length := List.length_pos_iff.mpr nonempty
  have whole : window digits digits.length 1 = digits.length := by
    have eq : window (digits ++ []) digits.length 1 =
        min (digits ++ []).length (digits.length + 1) :=
      window_eq all [] (by simp) digits.length (by simp; omega) (by simp)
    simpa using eq
  rw [parseIntListFrom, if_neg nonempty, whole]
  simp only [Nat.lt_irrefl, false_and, if_false, Nat.sub_self, Nat.sub_zero, List.drop_length]
  cases rounds <;> rfl

theorem window_behind (all : digits.all isDigit = true) (ends : isDigit c = false) :
    window (digits ++ c :: more) (digits ++ c :: more).length 1 = digits.length + 1 := by
  rw [window_eq all (c :: more) (by simpa using ends) _ (by simp) (by simp; omega)]
  simp

/-- A text whose digits are followed by something else than a comma and more. -/
theorem parseIntListFrom_other (all : digits.all isDigit = true) (ends : isDigit c = false)
    (other : c ≠ ',' ∨ more = []) (rounds : Nat) (list : Vec) (errno : Int) :
    (parseIntListFrom (rounds + 1) (digits ++ c :: more) list errno).ret ≠
      MiniKVMError.success.code := by
  rw [parseIntListFrom, if_neg (by simp), window_behind all ends]
  simp only [Nat.add_sub_cancel]
  split
  · exact (by decide : MiniKVMError.argsFailed.code ≠ MiniKVMError.success.code)
  · next comma =>
    have last : more = [] := by
      rcases other with other | last
      · by_contra some
        refine comma ⟨?_, by simp [other]⟩
        have := List.length_pos_iff.mpr some
        simp only [List.length_append, List.length_cons]
        omega
      · exact last
    have unread : miniKvmIsUint (digits ++ [c]) (digits.length + 1) = false := by
      rw [miniKvmIsUint_eq, List.take_of_length_le (by simp)]
      simp [ends]
    have refused : (-1 : Int32) ≠ MiniKVMError.success.code := by decide
    simp [last, miniKvmToUint, unread, refused]

/-- The digits are followed by a comma and more. -/
theorem parseIntListFrom_field (all : digits.all isDigit = true) (nonempty : more ≠ [])
    (list : Vec) (errno : Int) :
    parseIntListFrom (rounds + 1) (digits ++ ',' :: more) list errno =
      let read := miniKvmToUint (digits ++ ',' :: more) digits.length 0 errno
      if read.ret ≠ MiniKVMError.success.code then ⟨read.ret, list, read.errno⟩
      else parseIntListFrom rounds more (vecAppend list read.dst) read.errno := by
  have behind : 0 < more.length := List.length_pos_iff.mpr nonempty
  have rest : (digits ++ ',' :: more).length - (digits.length + 1) = more.length := by
    simp only [List.length_append, List.length_cons]
    omega
  rw [parseIntListFrom, if_neg (by simp), window_behind all (by decide)]
  simp only [rest, behind, if_true, Nat.add_sub_cancel]
  rw [if_neg (by simp)]
  simp

end Rounds

section Digits

variable {digits : List Char} {errno : Int}

/-- mini_kvm_to_uint on the digits at the start of a text. -/
theorem miniKvmToUint_digits (all : digits.all isDigit = true) (rest : List Char)
    (ends : ∀ c ∈ rest.head?, Ends c) (fits : decimal digits < 2 ^ 64) (quiet : Quiet errno) :
    miniKvmToUint (digits ++ rest) digits.length 0 errno =
      ⟨MiniKVMError.success.code, .ofNat (decimal digits), errno⟩ := by
  have number : miniKvmIsUint (digits ++ rest) digits.length = true := by
    rw [miniKvmIsUint_eq, List.take_left, all]
  rw [miniKvmToUint, if_pos number, strtoul_digits all ends, Strtoul.ofNat, if_neg (by omega)]
  simp only [Bool.false_eq_true, if_false, not_or.mpr quiet]
  rfl

theorem miniKvmToUint_refuses (all : digits.all isDigit = true) (rest : List Char)
    (ends : ∀ c ∈ rest.head?, Ends c) (unfit : ¬ (decimal digits < 2 ^ 64 ∧ Quiet errno)) :
    (miniKvmToUint (digits ++ rest) digits.length 0 errno).ret ≠ MiniKVMError.success.code := by
  have number : miniKvmIsUint (digits ++ rest) digits.length = true := by
    rw [miniKvmIsUint_eq, List.take_left, all]
  rw [miniKvmToUint, if_pos number, strtoul_digits all ends, Strtoul.ofNat]
  have refused : (-1 : Int32) ≠ MiniKVMError.success.code := by decide
  by_cases fits : 2 ^ 64 ≤ decimal digits
  · rw [if_pos fits]
    simpa only [or_true, if_true] using refused
  · have loud : errno = einval ∨ errno = erange := by
      by_contra quiet
      exact unfit ⟨Nat.lt_of_not_le fits, not_or.mp quiet⟩
    rw [if_neg fits]
    simpa only [if_pos loud] using refused

end Digits

theorem ends_comma : Ends ',' := by
  refine ⟨?_, ?_, ?_, ?_⟩ <;> decide

/-- The digits at the start of a text, and what is behind them. -/
theorem exists_digits (text : List Char) :
    ∃ digits rest, text = digits ++ rest ∧ digits.all isDigit = true ∧
      ∀ c ∈ rest.head?, isDigit c = false := by
  refine ⟨text.takeWhile isDigit, text.dropWhile isDigit, List.takeWhile_append_dropWhile.symm,
    List.all_takeWhile, ?_⟩
  intro c first
  have stopped := List.head?_dropWhile_not isDigit text
  rw [first] at stopped
  exact stopped

theorem readable_digits {digits : List Char} (all : digits.all isDigit = true)
    (nonempty : digits ≠ []) : Readable digits ↔ decimal digits < 2 ^ 64 := by
  constructor
  · exact fun readable => readable.fits digits (by simp [fields_digits all])
  · intro fits
    refine ⟨?_, ?_, ?_⟩
    · rwa [fields_digits all, List.forall_mem_singleton]
    · rwa [fields_digits all, List.forall_mem_singleton]
    · simpa [fields_digits all] using nonempty

theorem readable_field {digits : List Char} (all : digits.all isDigit = true) (more : List Char) :
    Readable (digits ++ ',' :: more) ↔ decimal digits < 2 ^ 64 ∧ Readable more := by
  have last : (digits :: fields more).getLast? = (fields more).getLast? := by
    obtain ⟨field, others, parts⟩ := List.exists_cons_of_ne_nil (fields_ne_nil more)
    rw [parts, List.getLast?_cons_cons]
  constructor
  · rintro ⟨digitsOnly, fits, ends⟩
    rw [fields_comma all] at digitsOnly fits ends
    rw [last] at ends
    exact ⟨fits digits (by simp), fun field member => digitsOnly field (by simp [member]),
      fun field member => fits field (by simp [member]), ends⟩
  · rintro ⟨fit, digitsOnly, fits, ends⟩
    refine ⟨?_, ?_, ?_⟩
    · rw [fields_comma all]
      exact List.forall_mem_cons.mpr ⟨all, digitsOnly⟩
    · rw [fields_comma all]
      exact List.forall_mem_cons.mpr ⟨fit, fits⟩
    · rwa [fields_comma all, last]

theorem not_readable_nil : ¬ Readable [] := fun readable => readable.ends rfl

theorem not_readable_of_mem {text : List Char} {c : Char} (inside : c ∈ text) (other : c ≠ ',')
    (noDigit : isDigit c = false) : ¬ Readable text := by
  intro readable
  obtain ⟨field, member, found⟩ := exists_field inside other
  have digit := List.all_eq_true.mp (readable.digits field member) c found
  rw [noDigit] at digit
  cases digit

/-- From any element on, the list is read when it is readable and `errno` is quiet, and refused
otherwise. -/
theorem parseIntListFrom_spec {rounds : Nat} {text : List Char} {list : Vec} {values : List UInt64}
    (enough : text.length ≤ rounds) (nonempty : text ≠ []) (holds : list.Holds values)
    (errno : Int) :
    ((parseIntListFrom rounds text list errno).ret = MiniKVMError.success.code ↔
        Readable text ∧ Quiet errno) ∧
      (Readable text → Quiet errno →
        (parseIntListFrom rounds text list errno).list.Holds (values ++ numbers text) ∧
          (parseIntListFrom rounds text list errno).errno = errno) := by
  induction rounds generalizing text list values with
  | zero => exact absurd (List.length_eq_zero_iff.mp (Nat.le_zero.mp enough)) nonempty
  | succ rounds ih =>
    obtain ⟨digits, rest, rfl, all, ends⟩ := exists_digits text
    cases rest with
    | nil =>
      rw [List.append_nil] at nonempty ⊢
      rw [parseIntListFrom_last all nonempty, readable_digits all nonempty, numbers,
        fields_digits all]
      by_cases good : decimal digits < 2 ^ 64 ∧ Quiet errno
      · have read := miniKvmToUint_digits all [] (by simp) good.1 good.2
        rw [List.append_nil] at read
        rw [read]
        simp only [ne_eq, not_true_eq_false, if_false, good, and_self, true_and, forall_const,
          and_true, List.map_cons, List.map_nil]
        exact holds_vecAppend holds _
      · have read := miniKvmToUint_refuses all [] (by simp) good
        rw [List.append_nil] at read
        simp only [if_pos read]
        exact ⟨iff_of_false read good, fun fits quiet => absurd ⟨fits, quiet⟩ good⟩
    | cons c more =>
      have noDigit : isDigit c = false := ends c rfl
      by_cases other : c ≠ ',' ∨ more = []
      · have refused := parseIntListFrom_other all noDigit other rounds list errno
        have unread : ¬ Readable (digits ++ c :: more) := by
          by_cases comma : c = ','
          · rw [comma, other.resolve_left (not_not_intro comma), readable_field all]
            exact fun readable => not_readable_nil readable.2
          · exact not_readable_of_mem (by simp) comma noDigit
        exact ⟨iff_of_false refused fun good => unread good.1, fun readable => absurd readable unread⟩
      · obtain ⟨comma, some⟩ := not_or.mp other
        obtain rfl := not_not.mp comma
        rw [parseIntListFrom_field all some, readable_field all, numbers, fields_comma all]
        by_cases good : decimal digits < 2 ^ 64 ∧ Quiet errno
        · have read := miniKvmToUint_digits all (',' :: more)
            (by simpa using ends_comma) good.1 good.2
          rw [read]
          have later := ih (by simp at enough; omega) some
            (holds_vecAppend holds (.ofNat (decimal digits)))
          rw [List.append_assoc] at later
          simp only [ne_eq, not_true_eq_false, if_false, good.1, true_and]
          exact later
        · have read := miniKvmToUint_refuses all (',' :: more)
            (by simpa using ends_comma) good
          simp only [if_pos read]
          exact ⟨iff_of_false read fun both => good ⟨both.1.1, both.2⟩,
            fun fits quiet => absurd ⟨fits.1, quiet⟩ good⟩

/-- The whole of a text that is not empty. -/
theorem miniKvmParseIntList_spec {rawList : List Char} (nonempty : rawList ≠ []) (errno : Int) :
    ((miniKvmParseIntList rawList errno).ret = MiniKVMError.success.code ↔
        Readable rawList ∧ Quiet errno) ∧
      (Readable rawList → Quiet errno →
        (miniKvmParseIntList rawList errno).list.Holds (numbers rawList) ∧
          (miniKvmParseIntList rawList errno).errno = errno) := by
  have spec := parseIntListFrom_spec (Nat.le_refl rawList.length) nonempty
    (holds_vecResize holds_vecNew 4) errno
  rwa [List.nil_append] at spec

/-- Whether a text is accepted: the empty one always is. -/
def Taken (text : List Char) (errno : Int) : Prop := text = [] ∨ Readable text ∧ Quiet errno

instance (text : List Char) (errno : Int) : Decidable (Taken text errno) :=
  inferInstanceAs (Decidable (_ ∨ _ ∧ _))

/-- What is read from a text that is accepted. -/
def numbersOf (text : List Char) : List UInt64 := if text = [] then [] else numbers text

theorem miniKvmParseIntList_taken_iff (text : List Char) (errno : Int) :
    (miniKvmParseIntList text errno).ret = MiniKVMError.success.code ↔ Taken text errno := by
  by_cases empty : text = []
  · exact iff_of_true (by rw [empty]; rfl) (.inl empty)
  · rw [(miniKvmParseIntList_spec empty errno).1, Taken, or_iff_right empty]

theorem miniKvmParseIntList_taken {text : List Char} {errno : Int} (taken : Taken text errno) :
    (miniKvmParseIntList text errno).list.Holds (numbersOf text) ∧
      (miniKvmParseIntList text errno).errno = errno := by
  by_cases empty : text = []
  · rw [numbersOf, if_pos empty, empty]
    exact ⟨holds_vecResize holds_vecNew 4, rfl⟩
  · obtain ⟨readable, quiet⟩ := taken.resolve_left empty
    rw [numbersOf, if_neg empty]
    exact (miniKvmParseIntList_spec empty errno).2 readable quiet

/-! ## mini_kvm_parse_cpu_list -/

/-- `1 << id`, where 1 is an int, as a uint64_t: the x86-64 shift takes its count modulo 32. -/
def cpuBit (id : UInt64) : UInt64 :=
  ((1 : UInt32) <<< (id % 32).toUInt32).toInt32.toInt64.toUInt64

/-- What the loop over the ids makes of the mask. -/
def withIds (cpuList : UInt64) (ids : List UInt64) : UInt64 :=
  ids.foldl (fun mask id => mask ||| cpuBit id) cpuList

/-- The loop over the ids, on a uint32_t. -/
def cpuListStep (list : Vec) (i : UInt32) : Option (List UInt64 × UInt32) :=
  if i.toNat < list.len then some ((list.get i.toNat).toList, i + 1) else none

/-- What mini_kvm_parse_cpu_list returns, leaves in `*cpu_list`, and leaves in `errno`. -/
structure CpuList where
  ret : Int32
  cpuList : UInt64
  errno : Int
  deriving DecidableEq, Repr

/-- `none` where the loop has not ended within the fuel. -/
def miniKvmParseCpuList (fuel : Nat) (rawList : List Char) (cpuList : UInt64) (errno : Int) :
    Option CpuList :=
  if rawList = [] then some ⟨MiniKVMError.success.code, cpuList, errno⟩
  else
    let parsed := miniKvmParseIntList rawList errno
    if parsed.ret ≠ MiniKVMError.success.code then
      some ⟨MiniKVMError.internalError.code, cpuList, parsed.errno⟩
    else
      (WhileLoop.collect (cpuListStep parsed.list) fuel 0).map fun ids =>
        ⟨MiniKVMError.success.code, withIds cpuList ids, parsed.errno⟩

section Mask

variable {list : Vec} {values : List UInt64}

/-- The loop stops where its counter, modulo 2^32, is at the length. -/
theorem cpuList_follows (list : Vec) :
    WhileLoop.Follows (cpuListStep list) UInt32.ofNat (fun k => (list.get (k % 2 ^ 32)).toList)
      fun k => k % 2 ^ 32 < list.len := by
  refine ⟨?_, ?_⟩
  · intro k inside
    rw [cpuListStep, UInt32.toNat_ofNat', if_pos inside, UInt32.ofNat_add]
    rfl
  · intro k outside
    rw [cpuListStep, UInt32.toNat_ofNat', if_neg outside]

theorem collect_cpuList (holds : list.Holds values) (short : values.length < 2 ^ 32) {fuel : Nat}
    (enough : values.length < fuel) :
    WhileLoop.collect (cpuListStep list) fuel 0 = some values := by
  have small {k : Nat} (inside : k < 2 ^ 32) : k % 2 ^ 32 = k := Nat.mod_eq_of_lt inside
  have ends := (cpuList_follows list).collect_eq values.length fuel
    (fun i inside => by rwa [small (by omega), holds.len])
    (by rw [small short, holds.len]; exact Nat.lt_irrefl _) enough
  have slots : (List.range values.length).flatMap (fun k => (list.get (k % 2 ^ 32)).toList) =
      (List.range values.length).flatMap fun k => [values[k]!] := by
    refine List.flatMap_congr fun k member => ?_
    have inside := List.mem_range.mp member
    rw [small (by omega), holds.get (by rwa [holds.len]), List.getElem?_eq_getElem inside,
      getElem!_pos values k inside]
    rfl
  refine ends.trans ?_
  rw [slots, ← List.map_eq_flatMap]
  congr 1
  refine List.ext_getElem (by simp) ?_
  intro i _ inside
  simp [inside]

/-- A uint32_t does not get past the end of a list of 2^32 numbers. -/
theorem collect_cpuList_none (holds : list.Holds values) (long : 2 ^ 32 ≤ values.length)
    (fuel : Nat) : WhileLoop.collect (cpuListStep list) fuel 0 = none := by
  refine (cpuList_follows list).collect_none (fun k => ?_) fuel 0
  rw [holds.len]
  exact Nat.lt_of_lt_of_le (Nat.mod_lt k (by decide)) long

variable {rawList : List Char} {cpuList : UInt64} {errno : Int} {fuel : Nat}

theorem miniKvmParseCpuList_mono {more : Nat} {out : CpuList} (le : fuel ≤ more)
    (ends : miniKvmParseCpuList fuel rawList cpuList errno = some out) :
    miniKvmParseCpuList more rawList cpuList errno = some out := by
  unfold miniKvmParseCpuList at ends ⊢
  split at ends
  · next empty => rwa [if_pos empty]
  · next nonempty =>
    rw [if_neg nonempty]
    simp only at ends ⊢
    split at ends
    · next refused => rwa [if_pos refused]
    · next accepted =>
      obtain ⟨ids, loop, rfl⟩ := Option.map_eq_some_iff.mp ends
      rw [if_neg accepted, WhileLoop.collect_mono le loop]
      rfl

theorem miniKvmParseCpuList_read (cpuList : UInt64) (readable : Readable rawList)
    (quiet : Quiet errno) (short : (fields rawList).length < 2 ^ 32)
    (enough : (fields rawList).length < fuel) :
    miniKvmParseCpuList fuel rawList cpuList errno =
      some ⟨MiniKVMError.success.code, withIds cpuList (numbers rawList), errno⟩ := by
  have some : rawList ≠ [] := by
    rintro rfl
    exact not_readable_nil readable
  obtain ⟨accepts, stores⟩ := miniKvmParseIntList_spec some errno
  obtain ⟨holds, keeps⟩ := stores readable quiet
  rw [miniKvmParseCpuList, if_neg some, if_neg (not_not_intro (accepts.mpr ⟨readable, quiet⟩)),
    collect_cpuList holds (by rwa [length_numbers]) (by rwa [length_numbers]), keeps]
  rfl

/-- A list that is read has one outcome. -/
theorem exists_read_iff (cpuList : UInt64) (readable : Readable rawList) (quiet : Quiet errno)
    (short : (fields rawList).length < 2 ^ 32) (P : CpuList → Prop) :
    (∃ fuel out, miniKvmParseCpuList fuel rawList cpuList errno = some out ∧ P out) ↔
      P ⟨MiniKVMError.success.code, withIds cpuList (numbers rawList), errno⟩ := by
  have read {fuel : Nat} (enough : (fields rawList).length < fuel) :=
    miniKvmParseCpuList_read cpuList readable quiet short enough
  constructor
  · rintro ⟨fuel, out, ends, holds⟩
    have later := miniKvmParseCpuList_mono (Nat.le_max_left fuel ((fields rawList).length + 1)) ends
    rw [read (by omega), Option.some.injEq] at later
    rwa [later]
  · exact fun holds => ⟨_, _, read (Nat.lt_succ_self _), holds⟩

theorem miniKvmParseCpuList_none (fuel : Nat) (cpuList : UInt64) (readable : Readable rawList)
    (quiet : Quiet errno) (long : 2 ^ 32 ≤ (fields rawList).length) :
    miniKvmParseCpuList fuel rawList cpuList errno = none := by
  have some : rawList ≠ [] := by
    rintro rfl
    exact not_readable_nil readable
  obtain ⟨accepts, stores⟩ := miniKvmParseIntList_spec some errno
  rw [miniKvmParseCpuList, if_neg some, if_neg (not_not_intro (accepts.mpr ⟨readable, quiet⟩)),
    collect_cpuList_none (stores readable quiet).1 (by rwa [length_numbers])]
  rfl

theorem miniKvmParseCpuList_refuses (fuel : Nat) (cpuList : UInt64) (some : rawList ≠ [])
    (unread : ¬ (Readable rawList ∧ Quiet errno)) :
    miniKvmParseCpuList fuel rawList cpuList errno =
      .some ⟨MiniKVMError.internalError.code, cpuList,
        (miniKvmParseIntList rawList errno).errno⟩ := by
  have refused := fun ret => unread ((miniKvmParseIntList_spec some errno).1.mp ret)
  rw [miniKvmParseCpuList, if_neg some, if_pos refused]

/-- Any list that is accepted, and on which the loop ends. -/
theorem miniKvmParseCpuList_taken (cpuList : UInt64) (taken : Taken rawList errno)
    (short : (numbersOf rawList).length < 2 ^ 32) (enough : (numbersOf rawList).length < fuel) :
    miniKvmParseCpuList fuel rawList cpuList errno =
      some ⟨MiniKVMError.success.code, withIds cpuList (numbersOf rawList), errno⟩ := by
  by_cases empty : rawList = []
  · rw [numbersOf, if_pos empty, miniKvmParseCpuList, if_pos empty]
    rfl
  · obtain ⟨readable, quiet⟩ := taken.resolve_left empty
    rw [numbersOf, if_neg empty, length_numbers] at short enough
    rw [numbersOf, if_neg empty]
    exact miniKvmParseCpuList_read cpuList readable quiet short enough

/-- A list that is accepted is one on which the loop ends. -/
theorem taken_of_success {out : CpuList}
    (ends : miniKvmParseCpuList fuel rawList cpuList errno = some out)
    (ret : out.ret = MiniKVMError.success.code) :
    Taken rawList errno ∧ (numbersOf rawList).length < 2 ^ 32 ∧
      out = ⟨MiniKVMError.success.code, withIds cpuList (numbersOf rawList), errno⟩ := by
  have outcome (taken : Taken rawList errno) (short : (numbersOf rawList).length < 2 ^ 32) :
      Taken rawList errno ∧ (numbersOf rawList).length < 2 ^ 32 ∧
        out = ⟨MiniKVMError.success.code, withIds cpuList (numbersOf rawList), errno⟩ := by
    have later := miniKvmParseCpuList_mono
      (Nat.le_max_left fuel ((numbersOf rawList).length + 1)) ends
    rw [miniKvmParseCpuList_taken cpuList taken short (by omega), Option.some.injEq] at later
    exact ⟨taken, short, later.symm⟩
  by_cases empty : rawList = []
  · exact outcome (.inl empty) (by rw [numbersOf, if_pos empty]; decide)
  · by_cases taken : Readable rawList ∧ Quiet errno
    · refine outcome (.inr taken) ?_
      by_contra long
      rw [numbersOf, if_neg empty, length_numbers] at long
      rw [miniKvmParseCpuList_none fuel cpuList taken.1 taken.2 (Nat.le_of_not_lt long)] at ends
      cases ends
    · rw [miniKvmParseCpuList_refuses fuel cpuList empty taken, Option.some.injEq] at ends
      rw [← ends] at ret
      exact absurd ret (by decide : MiniKVMError.internalError.code ≠ MiniKVMError.success.code)

end Mask

end MiniKvm.Source.IntLists
