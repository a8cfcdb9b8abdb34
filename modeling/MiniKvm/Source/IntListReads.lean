import MiniKvm.Lib.Total
import MiniKvm.Source.IntLists

/-!
# Reading lists of numbers

mini_kvm_is_uint and mini_kvm_parse_int_list of core/core.c on a string in memory, in the arithmetic of
size_t, with every character that they read. Source.IntLists has the same functions on the text.
-/
namespace MiniKvm.Source.IntListReads
open Lib Total Containers IntLists

def nul : Char := Char.ofNat 0

/-- A text, the NUL that ends it, and what is in memory behind that. -/
structure CString where
  text : List Char
  noNul : nul ∉ text
  fits : text.length < 2 ^ 64
  behind : UInt64 → Char

/-- `str[i]`. -/
def CString.get (str : CString) (i : UInt64) : Char :=
  match str.text[i.toNat]? with
  | some c => c
  | none => if i.toNat = str.text.length then nul else str.behind i

/-- A character of the list read, an iteration of the outer loop as the inner one leaves it, and the
length that mini_kvm_to_uint is given there. -/
inductive Event where
  | read (i : UInt64)
  | iteration (index offset : UInt64)
  | toUint (index offset n : UInt64)
  deriving DecidableEq, Repr

abbrev Reader := StateT (List Event) Option

def emit (e : Event) : Reader Unit := modify fun log => log ++ [e]

def CString.read (str : CString) (i : UInt64) : Reader Char := do
  emit (.read i)
  return str.get i

section

variable (fuel : Nat) (str : CString)

/-- `strlen(raw_list + index)`. -/
def strlen (index : UInt64) : Reader UInt64 :=
  loop (fun i => do
    let c ← str.read (index + i)
    if c = nul then return .inr i
    else return .inl (i + 1)) fuel 0

/-- mini_kvm_is_uint on `raw_list + index`. The character is read for the NUL before its place is
compared with `n`, and again for the digit. -/
def miniKvmIsUint (index n : UInt64) : Reader Bool := do
  let len ← strlen fuel str index
  if len = 0 ∨ n = 0 then return true
  else
    loop (fun i => do
      let c ← str.read (index + i)
      if c ≠ nul ∧ i < n then
        let c ← str.read (index + i)
        if ¬ Strings.isDigit c then return .inr false
        else return .inl (i + 1)
      else return .inr true) fuel 0

/-- mini_kvm_to_uint on `raw_list + index`. What strtoul reads is not recorded. -/
def miniKvmToUint (index n : UInt64) (dst : UInt64) (errno : Int) : Reader Strings.ToUint := do
  let number ← miniKvmIsUint fuel str index n
  if number then
    let read := Strings.strtoul (str.text.drop index.toNat) errno
    return ⟨if read.errno = Strings.einval ∨ read.errno = Strings.erange then -1 else 0, read.value,
      read.errno⟩
  else return ⟨-1, dst, errno⟩

/-- The inner loop. -/
def window (rawListLen index : UInt64) : Reader UInt64 :=
  loop (fun offset => do
    if index + offset < rawListLen then
      let number ← miniKvmIsUint fuel str index offset
      if number then return .inl (offset + 1)
      else return .inr offset
    else return .inr offset) fuel 1

/-- What an iteration of the outer loop starts from. -/
structure Scan where
  index : UInt64
  list : Vec
  errno : Int

/-- `raw_list[index + offset - 1] != ','`, behind an `&&`. -/
def misplaced (rawListLen index offset : UInt64) : Reader Bool := do
  if index + offset < rawListLen then
    let c ← str.read (index + offset - 1)
    return decide (c ≠ ',')
  else return false

def iteration (rawListLen : UInt64) (s : Scan) : Reader (Scan ⊕ IntList) := do
  let c ← str.read s.index
  if c = nul then return .inr ⟨MiniKVMError.success.code, s.list, s.errno⟩
  else
    let offset ← window fuel str rawListLen s.index
    emit (.iteration s.index offset)
    let bad ← misplaced str rawListLen s.index offset
    if bad then return .inr ⟨MiniKVMError.argsFailed.code, s.list, s.errno⟩
    else
      let n := offset - if 0 < rawListLen - (s.index + offset) then 1 else 0
      emit (.toUint s.index offset n)
      let read ← miniKvmToUint fuel str s.index n 0 s.errno
      if read.ret ≠ MiniKVMError.success.code then return .inr ⟨read.ret, s.list, read.errno⟩
      else return .inl ⟨s.index + offset, vecAppend s.list read.dst, read.errno⟩

def miniKvmParseIntList (errno : Int) : Reader IntList := do
  let rawListLen ← strlen fuel str 0
  loop (iteration fuel str rawListLen) fuel ⟨0, vecResize vecNew 4, errno⟩

end

/-! ## Strings -/

section Strings

variable {str : CString}

theorem get_of_lt {i : UInt64} (inside : i.toNat < str.text.length) :
    str.text.drop i.toNat = str.get i :: str.text.drop (i.toNat + 1) ∧ str.get i ≠ nul := by
  have here : str.text[i.toNat]? = some str.text[i.toNat] := List.getElem?_eq_getElem inside
  have get : str.get i = str.text[i.toNat] := by rw [CString.get, here]
  rw [get]
  refine ⟨List.drop_eq_getElem_cons inside, ?_⟩
  intro same
  exact str.noNul (same ▸ List.getElem_mem inside)

theorem get_of_eq {i : UInt64} (last : i.toNat = str.text.length) : str.get i = nul := by
  have none : str.text[i.toNat]? = none := List.getElem?_eq_none (by omega)
  rw [CString.get, none]
  exact if_pos last

/-- At a place in the text or right behind it, NUL is where the text ends. -/
theorem get_eq_nul_iff {i : UInt64} (inside : i.toNat ≤ str.text.length) :
    str.get i = nul ↔ i.toNat = str.text.length := by
  by_cases last : i.toNat = str.text.length
  · exact iff_of_true (get_of_eq last) last
  · exact iff_of_false (get_of_lt (by omega)).2 last

/-- No sum of places in the text wraps. -/
theorem toNat_add_of_le {i n : UInt64} (inside : i.toNat + n.toNat ≤ str.text.length) :
    (i + n).toNat = i.toNat + n.toNat := by
  have fits := str.fits
  rw [UInt64.toNat_add, Nat.mod_eq_of_lt (by omega)]

theorem toNat_succ_of_lt {i : UInt64} (inside : i.toNat < str.text.length) :
    (i + 1).toNat = i.toNat + 1 := by
  have fits := str.fits
  rw [UInt64.toNat_add, UInt64.toNat_one, Nat.mod_eq_of_lt (by omega)]

end Strings

/-! ## What one call does -/

section Calls

variable {str : CString} {fuel : Nat} {P : List Event → Prop} {index n : UInt64}

/-- Reading in the text, or the NUL behind it, keeps `P`. -/
def Stable (str : CString) (P : List Event → Prop) : Prop :=
  ∀ log i, i.toNat ≤ str.text.length → P log → P (log ++ [.read i])

theorem ends_emit {e : Event} {post : List Event → Prop}
    (holds : ∀ log, P log → post (log ++ [e])) : Ends P (emit e) fun _ log => post log :=
  Ends.modify holds

theorem ends_read {i : UInt64} (stable : Stable str P) (inside : i.toNat ≤ str.text.length) :
    Ends P (str.read i) fun c log => c = str.get i ∧ P log := by
  unfold CString.read
  apply (ends_emit fun log here => stable log i inside here).bind
  intro _
  exact Ends.pure fun _ here => ⟨rfl, here⟩

theorem ends_strlen (stable : Stable str P) (inside : index.toNat ≤ str.text.length)
    (enough : str.text.length < fuel) :
    Ends P (strlen fuel str index) fun len log =>
      index.toNat + len.toNat = str.text.length ∧ P log := by
  refine Ends.loop (fun i log => index.toNat + i.toNat ≤ str.text.length ∧ P log)
    (fun i => str.text.length - i.toNat) ?_ (fun _ here => ⟨by simpa using inside, here⟩)
    (by simpa using enough)
  intro i
  apply Ends.assuming
  intro below
  have place := toNat_add_of_le below
  apply (ends_read stable (by omega)).bind
  intro c
  apply Ends.assuming
  rintro rfl
  have ends := @get_eq_nul_iff str (index + i) (by omega)
  apply Ends.ite
  · intro last
    have here := ends.mp last
    exact Ends.leave fun _ holds => ⟨by omega, holds⟩
  · intro more
    have short := mt ends.mpr more
    have next : (i + 1).toNat = i.toNat + 1 := @toNat_succ_of_lt str i (by omega)
    have less : str.text.length - (i + 1).toNat < str.text.length - i.toNat := by omega
    exact Ends.again less fun _ holds => ⟨by omega, holds⟩

/-- What the loop of mini_kvm_is_uint keeps: what is still to be read decides. -/
def Decides (str : CString) (index n i : UInt64) : Prop :=
  index.toNat + i.toNat ≤ str.text.length ∧ i.toNat ≤ n.toNat ∧
    Strings.isUintFrom (str.text.drop index.toNat) n.toNat =
      Strings.isUintFrom (str.text.drop (index.toNat + i.toNat)) (n.toNat - i.toNat)

theorem ends_miniKvmIsUint (stable : Stable str P) (inside : index.toNat ≤ str.text.length)
    (enough : str.text.length < fuel) :
    Ends P (miniKvmIsUint fuel str index n) fun number log =>
      number = Strings.miniKvmIsUint (str.text.drop index.toNat) n.toNat ∧ P log := by
  apply (ends_strlen stable inside enough).bind
  intro len
  apply Ends.assuming
  intro length
  have none : (len = 0 ∨ n = 0) ↔
      ((str.text.drop index.toNat).length = 0 ∨ n.toNat = 0) := by
    rw [List.length_drop, ← UInt64.toNat_inj, ← UInt64.toNat_inj, UInt64.toNat_zero]
    omega
  unfold Strings.miniKvmIsUint
  apply Ends.ite
  · intro here
    exact Ends.pure fun _ holds => ⟨(if_pos (none.mp here)).symm, holds⟩
  · intro some
    rw [if_neg (mt none.mpr some)]
    refine Ends.loop (fun i log => Decides str index n i ∧ P log)
      (fun i => str.text.length - i.toNat) ?_
      (fun _ here => ⟨⟨by simpa using inside, by simp, by simp⟩, here⟩) (by simpa using enough)
    intro i
    apply Ends.assuming
    rintro ⟨below, _, decides⟩
    have place := toNat_add_of_le below
    apply (ends_read stable (by omega)).bind
    intro c
    apply Ends.assuming
    rintro rfl
    have ends := @get_eq_nul_iff str (index + i) (by omega)
    apply Ends.ite
    · rintro ⟨more, few⟩
      have short := mt ends.mpr more
      have few : i.toNat < n.toNat := few
      have next : (i + 1).toNat = i.toNat + 1 := @toNat_succ_of_lt str i (by omega)
      obtain ⟨parts, -⟩ := @get_of_lt str (index + i) (by omega)
      rw [place] at parts
      apply (ends_read stable (by omega)).bind
      intro c
      apply Ends.assuming
      rintro rfl
      obtain ⟨m, left⟩ : ∃ m, n.toNat - i.toNat = m + 1 := ⟨n.toNat - i.toNat - 1, by omega⟩
      rw [parts, left, Strings.isUintFrom] at decides
      apply Ends.ite
      · intro other
        refine Ends.leave fun _ holds => ⟨?_, holds⟩
        rw [decides]
        simp [Bool.eq_false_iff.mpr other]
      · intro digit
        have less : str.text.length - (i + 1).toNat < str.text.length - i.toNat := by omega
        refine Ends.again less fun _ holds => ⟨⟨by omega, by omega, ?_⟩, holds⟩
        rw [decides, not_not.mp digit, Bool.true_and, next, Nat.add_assoc]
        congr 1
        omega
    · intro last
      refine Ends.leave fun _ holds => ⟨?_, holds⟩
      rw [decides, Strings.isUintFrom_eq]
      by_cases few : i < n
      · have here : index.toNat + i.toNat = str.text.length := by
          rw [← place]
          exact ends.mp (by_contra fun more => last ⟨more, few⟩)
        rw [here, List.drop_length, List.take_nil]
        rfl
      · have done : n.toNat - i.toNat = 0 := Nat.sub_eq_zero_of_le (Nat.le_of_not_lt few)
        rw [done, List.take_zero]
        rfl

theorem ends_miniKvmToUint (stable : Stable str P) (inside : index.toNat ≤ str.text.length)
    (enough : str.text.length < fuel) (dst : UInt64) (errno : Int) :
    Ends P (miniKvmToUint fuel str index n dst errno) fun read log =>
      read = Strings.miniKvmToUint (str.text.drop index.toNat) n.toNat dst errno ∧ P log := by
  apply (ends_miniKvmIsUint stable inside enough).bind
  intro number
  apply Ends.assuming
  rintro rfl
  unfold Strings.miniKvmToUint
  apply Ends.ite
  · intro number
    exact Ends.pure fun _ holds => ⟨(if_pos number).symm, holds⟩
  · intro other
    exact Ends.pure fun _ holds => ⟨(if_neg other).symm, holds⟩

/-- The inner loop ends inside of the text, where it ends on the text alone. -/
theorem ends_window (stable : Stable str P) {rawListLen : UInt64}
    (len : rawListLen.toNat = str.text.length) (inside : index.toNat < str.text.length)
    (enough : str.text.length < fuel) :
    Ends P (window fuel str rawListLen index) fun offset log =>
      (1 ≤ offset.toNat ∧ index.toNat + offset.toNat ≤ str.text.length ∧
        offset.toNat = IntLists.window (str.text.drop index.toNat)
          (str.text.drop index.toNat).length 1) ∧ P log := by
  refine Ends.loop
    (fun offset log => (1 ≤ offset.toNat ∧ index.toNat + offset.toNat ≤ str.text.length ∧
      ∃ rounds, (str.text.drop index.toNat).length ≤ offset.toNat + rounds ∧
        IntLists.window (str.text.drop index.toNat) (str.text.drop index.toNat).length 1 =
          IntLists.window (str.text.drop index.toNat) rounds offset.toNat) ∧ P log)
    (fun offset => str.text.length - offset.toNat) ?_ ?_ ?_
  · intro offset
    apply Ends.assuming
    rintro ⟨one, below, rounds, left, same⟩
    have place := toNat_add_of_le below
    have guard : index + offset < rawListLen ↔
        offset.toNat < (str.text.drop index.toNat).length := by
      rw [UInt64.lt_iff_toNat_lt, place, len, List.length_drop]
      omega
    apply Ends.ite
    · intro more
      have short := guard.mp more
      obtain ⟨others, rfl⟩ : ∃ others, rounds = others + 1 := ⟨rounds - 1, by omega⟩
      rw [IntLists.window] at same
      rw [List.length_drop] at short
      apply (ends_miniKvmIsUint stable (Nat.le_of_lt inside) enough).bind
      intro number
      apply Ends.assuming
      rintro rfl
      apply Ends.ite
      · intro number
        have next : (offset + 1).toNat = offset.toNat + 1 := @toNat_succ_of_lt str offset (by omega)
        have less : str.text.length - (offset + 1).toNat < str.text.length - offset.toNat := by omega
        rw [if_pos ⟨guard.mp more, number⟩, ← next] at same
        exact Ends.again less fun _ holds => ⟨⟨by omega, by omega, others, by omega, same⟩, holds⟩
      · intro other
        rw [if_neg fun both => other both.2] at same
        exact Ends.leave fun _ holds => ⟨⟨one, below, same.symm⟩, holds⟩
    · intro last
      have stops : IntLists.window (str.text.drop index.toNat) rounds offset.toNat =
          offset.toNat := by
        cases rounds with
        | zero => rfl
        | succ others => rw [IntLists.window, if_neg fun both => last (guard.mpr both.1)]
      exact Ends.leave fun _ holds => ⟨⟨one, below, by rw [same, stops]⟩, holds⟩
  · intro log here
    exact ⟨⟨by simp, by simpa using inside, _, by simp, rfl⟩, here⟩
  · simp only [UInt64.toNat_one]
    omega

/-- The character that ends the element. -/
theorem ends_misplaced (stable : Stable str P) {rawListLen offset : UInt64}
    (len : rawListLen.toNat = str.text.length) (one : 1 ≤ offset.toNat)
    (below : index.toNat + offset.toNat ≤ str.text.length) :
    Ends P (misplaced str rawListLen index offset) fun bad log =>
      (bad = true ↔ offset.toNat < (str.text.drop index.toNat).length ∧
        (str.text.drop index.toNat)[offset.toNat - 1]? ≠ some ',') ∧ P log := by
  have place := toNat_add_of_le below
  have guard : index + offset < rawListLen ↔
      offset.toNat < (str.text.drop index.toNat).length := by
    rw [UInt64.lt_iff_toNat_lt, place, len, List.length_drop]
    omega
  apply Ends.ite
  · intro more
    have before : (index + offset - 1).toNat = index.toNat + (offset.toNat - 1) := by
      have some : 1 ≤ index + offset := by
        rw [UInt64.le_iff_toNat_le, place, UInt64.toNat_one]
        omega
      rw [UInt64.toNat_sub_of_le _ _ some, place, UInt64.toNat_one, Nat.add_sub_assoc one]
    have here : (str.text.drop index.toNat)[offset.toNat - 1]? =
        some (str.get (index + offset - 1)) := by
      have parts := (@get_of_lt str (index + offset - 1) (by omega)).1
      have head := congrArg List.head? parts
      rw [List.head?_drop, List.head?_cons, before] at head
      rw [List.getElem?_drop, head]
    apply (ends_read stable (by omega)).bind
    intro c
    apply Ends.assuming
    rintro rfl
    refine Ends.pure fun _ holds => ⟨?_, holds⟩
    rw [here, decide_eq_true_iff, and_iff_right (guard.mp more), ne_eq, ne_eq, Option.some.injEq]
  · intro last
    exact Ends.pure fun _ holds => ⟨iff_of_false (by decide) fun both => last (guard.mpr both.1), holds⟩

/-- The length that mini_kvm_to_uint is given is `offset`, less one where something follows. -/
theorem toNat_length {rawListLen offset : UInt64} (len : rawListLen.toNat = str.text.length)
    (one : 1 ≤ offset.toNat) (below : index.toNat + offset.toNat ≤ str.text.length) :
    (offset - if 0 < rawListLen - (index + offset) then 1 else 0).toNat =
      offset.toNat - if 0 < (str.text.drop index.toNat).length - offset.toNat then 1 else 0 := by
  have place := toNat_add_of_le below
  have behind : 0 < rawListLen - (index + offset) ↔
      0 < (str.text.drop index.toNat).length - offset.toNat := by
    have le : index + offset ≤ rawListLen := by
      rw [UInt64.le_iff_toNat_le, place, len]
      exact below
    rw [UInt64.lt_iff_toNat_lt, UInt64.toNat_zero, UInt64.toNat_sub_of_le _ _ le, place, len,
      List.length_drop]
    omega
  by_cases follows : 0 < rawListLen - (index + offset)
  · rw [if_pos follows, if_pos (behind.mp follows),
      UInt64.toNat_sub_of_le _ _ (UInt64.le_iff_toNat_le.mpr (by simpa using one)), UInt64.toNat_one]
  · rw [if_neg follows, if_neg (mt behind.mpr follows), UInt64.sub_zero, Nat.sub_zero]

end Calls

end MiniKvm.Source.IntListReads
