import MiniKvm.Source.IntLists

/-!
# Which lists of numbers are read

mini_kvm_parse_int_list on every text.

* a list of digit strings joined by commas is read in order (`parses_joined`);
* a text with an empty element before its last one is read too, with 0 there, unless something else
  is wrong with it (`refusesMalformed_iff`, `leadingComma_accepted`): mini_kvm_to_uint checks no
  character then, and strtoul stops at the comma at once.
-/
namespace MiniKvm.Guarantees.NumberLists
open Source Source.Containers Source.Strings Source.IntLists

theorem fields_joined {elements : List (List Char)} (nonempty : elements ≠ [])
    (digits : ∀ element ∈ elements, element.all isDigit = true) :
    fields ([','].intercalate elements) = elements :=
  List.splitOn_intercalate ',' (fun element member => digits_no_comma (digits element member))
    nonempty

theorem toNat_numbers {text : List Char} (readable : Readable text) :
    (numbers text).map UInt64.toNat = (fields text).map decimal := by
  rw [numbers, List.map_map]
  refine List.map_congr_left ?_
  intro field member
  exact UInt64.toNat_ofNat_of_lt' (readable.fits field member)

theorem joined_ne_nil {elements : List (List Char)} (nonempty : elements ≠ [])
    (digits : ∀ element ∈ elements, element ≠ [] ∧ element.all isDigit = true) :
    [','].intercalate elements ≠ [] := by
  intro none
  have parts := fields_joined nonempty fun element member => (digits element member).2
  rw [none] at parts
  exact (digits [] (by simp [← parts, fields])).1 rfl

theorem readable_joined_iff {elements : List (List Char)} (nonempty : elements ≠ [])
    (digits : ∀ element ∈ elements, element ≠ [] ∧ element.all isDigit = true) :
    Readable ([','].intercalate elements) ↔ ∀ element ∈ elements, decimal element < 2 ^ 64 := by
  have parts := fields_joined nonempty fun element member => (digits element member).2
  constructor
  · intro readable
    have fits := readable.fits
    rwa [parts] at fits
  · intro fits
    refine ⟨?_, ?_, ?_⟩
    · rw [parts]
      exact fun element member => (digits element member).2
    · rwa [parts]
    · rw [parts]
      exact fun last => (digits [] (List.mem_of_getLast? last)).1 rfl

/-- A list of digit strings in range, joined by commas, is accepted, and its values are stored in
order. -/
theorem parses_joined {elements : List (List Char)} (nonempty : elements ≠ [])
    (digits : ∀ element ∈ elements, element ≠ [] ∧ element.all isDigit = true)
    (fits : ∀ element ∈ elements, decimal element ≤ 2 ^ 64 - 1) {errno : Int} (quiet : Quiet errno) :
    (miniKvmParseIntList ([','].intercalate elements) errno).ret = MiniKVMError.success.code ∧
      ∃ values, (miniKvmParseIntList ([','].intercalate elements) errno).list.Holds values ∧
        values.map UInt64.toNat = elements.map decimal := by
  have readable : Readable ([','].intercalate elements) := by
    refine (readable_joined_iff nonempty digits).mpr fun element member => ?_
    have := fits element member
    omega
  obtain ⟨accepts, stores⟩ := miniKvmParseIntList_spec (joined_ne_nil nonempty digits) errno
  refine ⟨accepts.mpr ⟨readable, quiet⟩, numbers _, (stores readable quiet).1, ?_⟩
  rw [toNat_numbers readable, fields_joined nonempty fun element member => (digits element member).2]

theorem parses_two : ∃ values,
    (miniKvmParseIntList ([','].intercalate [['0', '7'], ['1', '2']]) 0).list.Holds values ∧
      values.map UInt64.toNat = [['0', '7'], ['1', '2']].map decimal :=
  (@parses_joined [['0', '7'], ['1', '2']] (by decide) (by decide) (by decide) 0 (by decide)).2

/-! ## Refusals -/

/-- A list of elements which are digits, one or more, and in range. -/
structure WellFormed (text : List Char) : Prop where
  nonempty : ∀ field ∈ fields text, field ≠ []
  digits : ∀ field ∈ fields text, field.all isDigit = true
  fits : ∀ field ∈ fields text, decimal field ≤ 2 ^ 64 - 1

/-- A text that is not empty and not such a list is refused. -/
def RefusesMalformed (rawList : List Char) (errno : Int) : Prop :=
  rawList ≠ [] → ¬ WellFormed rawList →
    (miniKvmParseIntList rawList errno).ret ≠ MiniKVMError.success.code

/-- A list is readable without being well formed when it has an empty element, not at its end. -/
theorem wellFormed_iff (text : List Char) :
    WellFormed text ↔ Readable text ∧ ∀ field ∈ fields text, field ≠ [] := by
  constructor
  · rintro ⟨nonempty, digits, fits⟩
    refine ⟨⟨digits, ?_, ?_⟩, nonempty⟩
    · intro field member
      have := fits field member
      omega
    · exact fun last => nonempty [] (List.mem_of_getLast? last) rfl
  · rintro ⟨⟨digits, fits, -⟩, nonempty⟩
    refine ⟨nonempty, digits, ?_⟩
    intro field member
    have := fits field member
    omega

/-- Malformed texts are refused exactly where no element is empty, or something else is wrong: a
character that is no digit, an element out of range, nothing behind the last comma, or an `errno` that
is taken for strtoul's. -/
theorem refusesMalformed_iff (rawList : List Char) (errno : Int) :
    RefusesMalformed rawList errno ↔
      (∀ field ∈ fields rawList, field ≠ []) ∨
        (∃ field ∈ fields rawList, ¬ field.all isDigit = true) ∨
        (∃ field ∈ fields rawList, 2 ^ 64 - 1 < decimal field) ∨
        (fields rawList).getLast? = some [] ∨ errno = einval ∨ errno = erange := by
  constructor
  · intro refuses
    by_contra gap
    simp only [not_or, not_exists, not_and, not_not] at gap
    obtain ⟨empty, digits, fits, last, quiet⟩ := gap
    have readable : Readable rawList := by
      refine ⟨digits, ?_, last⟩
      intro field member
      have := fits field member
      omega
    have some : rawList ≠ [] := by
      rintro rfl
      exact not_readable_nil readable
    refine refuses some (fun formed => empty formed.nonempty) ?_
    exact (miniKvmParseIntList_spec some errno).1.mpr ⟨readable, quiet⟩
  · intro gap some malformed accepted
    obtain ⟨readable, quiet⟩ := (miniKvmParseIntList_spec some errno).1.mp accepted
    rcases gap with nonempty | ⟨field, member, other⟩ | ⟨field, member, big⟩ | last | einval | erange
    · exact malformed ((wellFormed_iff rawList).mpr ⟨readable, nonempty⟩)
    · exact other (readable.digits field member)
    · have := readable.fits field member
      omega
    · exact readable.ends last
    · exact quiet.1 einval
    · exact quiet.2 erange

/-- ",1" is read as 0 and 1. -/
theorem leadingComma_accepted : ¬ RefusesMalformed [',', '1'] 0 := by
  intro refuses
  refine refuses (by decide) ?_ (by decide)
  exact fun formed => formed.nonempty [] (by decide) rfl

end MiniKvm.Guarantees.NumberLists
