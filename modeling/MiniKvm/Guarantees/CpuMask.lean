import MiniKvm.Guarantees.NumberLists

/-!
# The masks of cpu lists

mini_kvm_parse_cpu_list on every list of decimal ids. `1 << id` is an int: an id names the bit of its
remainder modulo 32, and 31 is the sign, which is extended to bits 31 to 63. No id is compared with
MINI_KVM_MAX_VCPUS.

* an id adds the bit of its remainder, or bits 31 to 63 (`testBit_cpuBit`, `testBit_withIds`);
* when the mask that is built is the one asked for, and which lists are refused
  (`buildsMask_iff`, `thirtyTwo_folded`).
-/
namespace MiniKvm.Guarantees.CpuMask
open Lib Source Source.Containers Source.Strings Source.IntLists NumberLists

/-! ## The bits -/

/-- The shift looks at the last five bits of the id. -/
theorem cpuBit_mod (id : UInt64) : cpuBit id = cpuBit (.ofNat (id.toNat % 32)) := by
  have same : (UInt64.ofNat (id.toNat % 32)) % 32 = id % 32 := by
    apply UInt64.toNat.inj
    have modulus : UInt64.toNat 32 = 32 := rfl
    rw [UInt64.toNat_mod, UInt64.toNat_mod, UInt64.toNat_ofNat', modulus]
    omega
  rw [cpuBit, cpuBit, same]

theorem cpuBit_small : ∀ r < 31, (cpuBit (.ofNat r)).toNat = 2 ^ r := by decide

theorem cpuBit_sign : (cpuBit (.ofNat 31)).toNat = (2 ^ 33 - 1) <<< 31 := by decide

theorem testBit_cpuBit (id : UInt64) (bit : Nat) :
    (cpuBit id).toNat.testBit bit = true ↔
      id.toNat % 32 = bit ∨ id.toNat % 32 = 31 ∧ 31 ≤ bit ∧ bit < 64 := by
  rw [cpuBit_mod]
  have small : id.toNat % 32 < 32 := Nat.mod_lt _ (by decide)
  generalize id.toNat % 32 = r at small ⊢
  by_cases sign : r = 31
  · subst sign
    rw [cpuBit_sign, Nat.testBit_shiftLeft, Nat.testBit_two_pow_sub_one]
    simp only [Bool.and_eq_true, decide_eq_true_eq, true_and]
    omega
  · rw [cpuBit_small r (by omega), Nat.testBit_two_pow, decide_eq_true_eq]
    omega

theorem testBit_withIds (cpuList : UInt64) (ids : List UInt64) (bit : Nat) :
    (withIds cpuList ids).toNat.testBit bit = true ↔
      cpuList.toNat.testBit bit = true ∨ ∃ id ∈ ids, (cpuBit id).toNat.testBit bit = true := by
  induction ids generalizing cpuList with
  | nil => simp [withIds]
  | cons id ids ih =>
    have step : withIds cpuList (id :: ids) = withIds (cpuList ||| cpuBit id) ids := rfl
    rw [step, ih, UInt64.toNat_or, Nat.testBit_or, Bool.or_eq_true]
    simp only [List.mem_cons, exists_eq_or_imp, or_assoc]

/-- The bit is in the mask, or asked for. -/
def Wanted (ids : List Nat) (cpuList : UInt64) (bit : Nat) : Prop :=
  cpuList.toNat.testBit bit = true ∨ bit ∈ ids

instance (ids : List Nat) (cpuList : UInt64) (bit : Nat) : Decidable (Wanted ids cpuList bit) :=
  inferInstanceAs (Decidable (_ ∨ _))

/-- What saves a mask: the bit an id from 32 on is mistaken for is wanted, or is the sign, which brings
bits 31 to 63 when all of these are wanted; and without a sign an id from 32 on is already there. -/
structure Survives (ids : List Nat) (cpuList : UInt64) : Prop where
  folded : ∀ id ∈ ids, 32 ≤ id → Wanted ids cpuList (id - 32)
  signed : 31 ∈ ids ∨ 63 ∈ ids → ∀ bit, 31 ≤ bit → bit < 64 → Wanted ids cpuList bit
  high : 31 ∉ ids → 63 ∉ ids → ∀ id ∈ ids, 32 ≤ id → cpuList.toNat.testBit id = true

/-- The bits that are set are the wanted ones. -/
theorem withIds_iff {ids : List Nat} (small : ∀ id ∈ ids, id < 64) (cpuList : UInt64) :
    (∀ bit, (withIds cpuList (ids.map UInt64.ofNat)).toNat.testBit bit = true ↔
        Wanted ids cpuList bit) ↔ Survives ids cpuList := by
  have added (bit : Nat) : (∃ id ∈ ids.map UInt64.ofNat, (cpuBit id).toNat.testBit bit = true) ↔
      ∃ id ∈ ids, id % 32 = bit ∨ id % 32 = 31 ∧ 31 ≤ bit ∧ bit < 64 := by
    simp only [List.mem_map, exists_exists_and_eq_and]
    refine exists_congr fun id => and_congr_right fun member => ?_
    rw [testBit_cpuBit, UInt64.toNat_ofNat_of_lt' (Nat.lt_trans (small id member) (by decide))]
  simp only [testBit_withIds, added]
  constructor
  · intro same
    refine ⟨?_, ?_, ?_⟩
    · intro id member high
      have := small id member
      exact (same _).mp (.inr ⟨id, member, .inl (by omega)⟩)
    · intro sign bit low high
      rcases sign with member | member
      · exact (same bit).mp (.inr ⟨31, member, .inr ⟨rfl, low, high⟩⟩)
      · exact (same bit).mp (.inr ⟨63, member, .inr ⟨rfl, low, high⟩⟩)
    · intro no31 no63 id member high
      rcases (same id).mpr (.inr member) with there | ⟨other, inside, folds | ⟨sign, -⟩⟩
      · exact there
      · omega
      · have := small other inside
        have : other = 31 ∨ other = 63 := by omega
        rcases this with rfl | rfl
        · exact absurd inside no31
        · exact absurd inside no63
  · rintro ⟨folded, signed, high⟩ bit
    constructor
    · rintro (there | ⟨id, member, folds | ⟨sign, low, top⟩⟩)
      · exact .inl there
      · have := small id member
        by_cases below : id < 32
        · exact .inr (by rwa [show bit = id by omega])
        · rw [show bit = id - 32 by omega]
          exact folded id member (by omega)
      · have := small id member
        have : id = 31 ∨ id = 63 := by omega
        rcases this with rfl | rfl
        · exact signed (.inl member) bit low top
        · exact signed (.inr member) bit low top
    · rintro (there | member)
      · exact .inl there
      · have := small bit member
        by_cases below : bit < 32
        · exact .inr ⟨bit, member, .inl (by omega)⟩
        · by_cases no31 : 31 ∈ ids
          · exact .inr ⟨31, no31, .inr ⟨rfl, by omega, this⟩⟩
          · by_cases no63 : 63 ∈ ids
            · exact .inr ⟨63, no63, .inr ⟨rfl, by omega, this⟩⟩
            · exact .inl (high no31 no63 bit member (by omega))

/-! ## The lists -/

/-- Ids which are all below the number of vcpus are added to the mask, and no other bit; a list with a
greater one is refused, and the mask stays as it is. -/
structure BuildsMask (elements : List (List Char)) (cpuList : UInt64) (errno : Int) : Prop where
  builds : (∀ element ∈ elements, decimal element < miniKvmMaxVcpus) →
    ∃ fuel out, miniKvmParseCpuList fuel ([','].intercalate elements) cpuList errno = some out ∧
      out.ret = MiniKVMError.success.code ∧ ∀ bit, out.cpuList.toNat.testBit bit = true ↔
        cpuList.toNat.testBit bit = true ∨ ∃ element ∈ elements, decimal element = bit
  refuses : (∃ element ∈ elements, miniKvmMaxVcpus ≤ decimal element) →
    ∃ fuel out, miniKvmParseCpuList fuel ([','].intercalate elements) cpuList errno = some out ∧
      out.ret ≠ MiniKVMError.success.code ∧ out.cpuList = cpuList

/-- The ids of a list that is read. -/
theorem numbers_joined {elements : List (List Char)} (nonempty : elements ≠ [])
    (digits : ∀ element ∈ elements, element ≠ [] ∧ element.all isDigit = true) :
    numbers ([','].intercalate elements) = (elements.map decimal).map UInt64.ofNat := by
  rw [numbers, fields_joined nonempty fun element member => (digits element member).2, List.map_map]
  rfl

section Lists

variable {elements : List (List Char)} {errno : Int}

/-- A list that is read builds the mask where its ids survive, and does not refuse any. -/
theorem buildsMask_read (nonempty : elements ≠ [])
    (digits : ∀ element ∈ elements, element ≠ [] ∧ element.all isDigit = true)
    (fits : ∀ element ∈ elements, decimal element < 2 ^ 64) (quiet : Quiet errno)
    (short : elements.length < 2 ^ 32) (cpuList : UInt64) :
    BuildsMask elements cpuList errno ↔
      ((∀ element ∈ elements, decimal element < miniKvmMaxVcpus) →
        Survives (elements.map decimal) cpuList) ∧
      ¬ ∃ element ∈ elements, miniKvmMaxVcpus ≤ decimal element := by
  have parts := fields_joined nonempty fun element member => (digits element member).2
  have readable := (readable_joined_iff nonempty digits).mpr fits
  have outcome := exists_read_iff cpuList readable quiet (by rwa [parts])
  rw [numbers_joined nonempty digits] at outcome
  have bits (small : ∀ element ∈ elements, decimal element < miniKvmMaxVcpus) :
      (∀ bit, (withIds cpuList ((elements.map decimal).map UInt64.ofNat)).toNat.testBit bit = true ↔
        Wanted (elements.map decimal) cpuList bit) ↔ Survives (elements.map decimal) cpuList :=
    withIds_iff (List.forall_mem_map.mpr small) cpuList
  constructor
  · rintro ⟨builds, refuses⟩
    refine ⟨fun small => (bits small).mp fun bit => ?_, fun big => ?_⟩
    · rw [((outcome _).mp (builds small)).2 bit, Wanted, List.mem_map]
    · exact absurd rfl ((outcome _).mp (refuses big)).1
  · rintro ⟨survives, none⟩
    refine ⟨fun small => (outcome _).mpr ⟨rfl, fun bit => ?_⟩, fun big => absurd big none⟩
    rw [(bits small).mpr (survives small) bit, Wanted, List.mem_map]

/-- A list of 2^32 ids is neither accepted nor refused. -/
theorem not_buildsMask_of_long (nonempty : elements ≠ [])
    (digits : ∀ element ∈ elements, element ≠ [] ∧ element.all isDigit = true)
    (fits : ∀ element ∈ elements, decimal element < 2 ^ 64) (quiet : Quiet errno)
    (long : 2 ^ 32 ≤ elements.length) (cpuList : UInt64) : ¬ BuildsMask elements cpuList errno := by
  have parts := fields_joined nonempty fun element member => (digits element member).2
  have readable := (readable_joined_iff nonempty digits).mpr fits
  have endless (fuel : Nat) := miniKvmParseCpuList_none fuel cpuList readable quiet (by rwa [parts])
  rintro ⟨builds, refuses⟩
  by_cases small : ∀ element ∈ elements, decimal element < miniKvmMaxVcpus
  · obtain ⟨fuel, out, ends, -⟩ := builds small
    rw [endless] at ends
    cases ends
  · have big : ∃ element ∈ elements, miniKvmMaxVcpus ≤ decimal element := by
      push Not at small
      exact small
    obtain ⟨fuel, out, ends, -⟩ := refuses big
    rw [endless] at ends
    cases ends

/-- A list that is not read is refused, as it has to be where an id is too great. -/
theorem buildsMask_unread (nonempty : elements ≠ [])
    (digits : ∀ element ∈ elements, element ≠ [] ∧ element.all isDigit = true)
    (unread : ¬ ((∀ element ∈ elements, decimal element < 2 ^ 64) ∧ Quiet errno))
    (cpuList : UInt64) :
    BuildsMask elements cpuList errno ↔
      ¬ ∀ element ∈ elements, decimal element < miniKvmMaxVcpus := by
  have refused (fuel : Nat) := miniKvmParseCpuList_refuses fuel cpuList
    (joined_ne_nil nonempty digits) (by rwa [readable_joined_iff nonempty digits])
  have error : MiniKVMError.internalError.code ≠ MiniKVMError.success.code := by decide
  constructor
  · rintro ⟨builds, -⟩ small
    obtain ⟨fuel, out, ends, ret, -⟩ := builds small
    rw [refused, Option.some.injEq] at ends
    rw [← ends] at ret
    exact error ret
  · exact fun big => ⟨fun small => absurd small big, fun _ => ⟨0, _, refused 0, error, rfl⟩⟩

/-- A list of digit strings builds the mask exactly where nothing goes wrong with the bits; one with a
greater id is refused exactly where the id is out of range for strtoul, or `errno` says so. -/
theorem buildsMask_iff {elements : List (List Char)}
    (digits : ∀ element ∈ elements, element ≠ [] ∧ element.all isDigit = true)
    (cpuList : UInt64) (errno : Int) :
    BuildsMask elements cpuList errno ↔
      ((∀ element ∈ elements, decimal element < miniKvmMaxVcpus) → elements = [] ∨
        Quiet errno ∧ elements.length < 2 ^ 32 ∧ Survives (elements.map decimal) cpuList) ∧
      ((∃ element ∈ elements, miniKvmMaxVcpus ≤ decimal element) →
        (∃ element ∈ elements, 2 ^ 64 - 1 < decimal element) ∨ ¬ Quiet errno) := by
  by_cases nonempty : elements = []
  · subst nonempty
    refine iff_of_true ⟨fun _ => ⟨0, _, rfl, rfl, by simp⟩, by simp⟩ ⟨by simp, by simp⟩
  have unread_iff : ((∃ element ∈ elements, 2 ^ 64 - 1 < decimal element) ∨ ¬ Quiet errno) ↔
      ¬ ((∀ element ∈ elements, decimal element < 2 ^ 64) ∧ Quiet errno) := by
    rw [not_and_or]
    push Not
    rfl
  by_cases good : (∀ element ∈ elements, decimal element < 2 ^ 64) ∧ Quiet errno
  · obtain ⟨fits, quiet⟩ := good
    by_cases short : elements.length < 2 ^ 32
    · rw [buildsMask_read nonempty digits fits quiet short, unread_iff]
      simp only [nonempty, quiet, short, true_and, false_or]
      refine and_congr_right fun _ => ?_
      exact ⟨fun none big => absurd big none, fun refused big => refused big ⟨fits, trivial⟩⟩
    · refine iff_of_false
        (not_buildsMask_of_long nonempty digits fits quiet (Nat.le_of_not_lt short) cpuList) ?_
      rintro ⟨saved, outOfRange⟩
      rw [unread_iff] at outOfRange
      by_cases small : ∀ element ∈ elements, decimal element < miniKvmMaxVcpus
      · exact short ((saved small).resolve_left nonempty).2.1
      · push Not at small
        exact outOfRange small ⟨fits, quiet⟩
  · rw [buildsMask_unread nonempty digits good, unread_iff]
    refine ⟨fun big => ⟨fun small => absurd small big, fun _ => good⟩, fun both small => good ?_⟩
    have quiet := ((both.1 small).resolve_left nonempty).1
    exact ⟨fun element member => Nat.lt_trans (small element member) (by decide), quiet⟩

end Lists

/-- The exact mask of ids 0 and 5, added to bit 3. -/
theorem zeroFive_built : BuildsMask [['0'], ['5']] 8 0 :=
  (buildsMask_iff (by decide) 8 0).mpr
    ⟨fun _ => .inr ⟨by decide, by decide, by decide, fun sign => absurd sign (by decide), by decide⟩,
      by decide⟩

/-- Id 32 is taken for id 0. -/
theorem thirtyTwo_folded : ¬ BuildsMask [['3', '2']] 0 0 := by
  rintro ⟨builds, -⟩
  have readable : Readable ([','].intercalate [['3', '2']]) := ⟨by decide, by decide, by decide⟩
  have bits := ((exists_read_iff 0 readable (by decide) (by decide) _).mp (builds (by decide))).2
  exact absurd ((bits 32).mpr (.inr ⟨['3', '2'], by decide, by decide⟩)) (by decide)

end MiniKvm.Guarantees.CpuMask
