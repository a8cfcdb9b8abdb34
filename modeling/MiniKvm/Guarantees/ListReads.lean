import MiniKvm.Source.IntListReads

/-!
# Where the list is read

mini_kvm_parse_int_list on every string that ends. Both of its loops end, the outer one goes forward
over the text and stops at the NUL, and nothing behind that is read.
-/
namespace MiniKvm.Guarantees.ListReads
open Lib Total Source Source.Containers Source.IntListReads

/-- Where the outer loop was, iteration by iteration. -/
def indices (log : List Event) : List UInt64 :=
  log.filterMap fun
    | .iteration index _ => some index
    | .read _ | .toUint .. => none

/-- No character behind the NUL is read; an iteration takes a character or more, none behind the text;
the length for mini_kvm_to_uint is `offset`, less one where something follows, without a wrap. -/
def Inside (str : CString) : Event → Prop
  | .read i => i.toNat ≤ str.text.length
  | .iteration index offset =>
    1 ≤ offset.toNat ∧ index.toNat + offset.toNat ≤ str.text.length
  | .toUint index offset n =>
    n.toNat + (if index.toNat + offset.toNat < str.text.length then 1 else 0) = offset.toNat

/-- A run stays in the string, and goes forward. -/
structure InBounds (str : CString) (log : List Event) : Prop where
  inside : ∀ e ∈ log, Inside str e
  increasing : (indices log).Pairwise (· < ·)

/-- The outer loop has come to `index`. -/
structure Reached (str : CString) (index : UInt64) (log : List Event) : Prop extends
    InBounds str log where
  behind : ∀ i ∈ indices log, i < index

section Log

variable {str : CString} {index offset : UInt64} {log : List Event}

theorem indices_append (log more : List Event) : indices (log ++ more) = indices log ++ indices more :=
  List.filterMap_append

theorem inside_append {e : Event} (before : ∀ x ∈ log, Inside str x) (last : Inside str e) :
    ∀ x ∈ log ++ [e], Inside str x :=
  List.forall_mem_append.mpr ⟨before, List.forall_mem_singleton.mpr last⟩

theorem reached_start (str : CString) : Reached str 0 [] :=
  ⟨⟨by simp, List.Pairwise.nil⟩, by simp [indices]⟩

/-- An event that is no iteration. -/
theorem Reached.plain (reached : Reached str index log) {e : Event} (plain : indices [e] = [])
    (last : Inside str e) : Reached str index (log ++ [e]) := by
  have same : indices (log ++ [e]) = indices log := by
    rw [indices_append, plain, List.append_nil]
  obtain ⟨⟨inside, increasing⟩, behind⟩ := reached
  refine ⟨⟨inside_append inside last, ?_⟩, ?_⟩
  · rwa [same]
  · rwa [same]

theorem stable_reached (index : UInt64) : Stable str (Reached str index) :=
  fun _ _ inside reached => reached.plain rfl inside

/-- An iteration goes on to the place behind what it has taken. -/
theorem Reached.iteration (reached : Reached str index log) (one : 1 ≤ offset.toNat)
    (below : index.toNat + offset.toNat ≤ str.text.length) :
    Reached str (index + offset) (log ++ [.iteration index offset]) := by
  have forward : index < index + offset := by
    rw [UInt64.lt_iff_toNat_lt, toNat_add_of_le below]
    omega
  have places : indices (log ++ [.iteration index offset]) = indices log ++ [index] :=
    indices_append log _
  obtain ⟨⟨inside, increasing⟩, behind⟩ := reached
  refine ⟨⟨inside_append inside ⟨one, below⟩, ?_⟩, ?_⟩
  · rw [places]
    exact List.pairwise_append.mpr ⟨increasing, List.pairwise_singleton _ _,
      fun i member j last => (List.mem_singleton.mp last) ▸ behind i member⟩
  · rw [places]
    exact List.forall_mem_append.mpr ⟨fun i member => UInt64.lt_trans (behind i member) forward,
      List.forall_mem_singleton.mpr forward⟩

end Log

/-! ## The outer loop -/

section OuterLoop

variable {str : CString} {fuel : Nat} {rawListLen : UInt64} {out : IntLists.IntList} {s : Scan}

/-- What is left of the text makes what the whole of it is read as. -/
def Tail (str : CString) (out : IntLists.IntList) (s : Scan) : Prop :=
  s.index.toNat ≤ str.text.length ∧
    ∃ rounds, (str.text.drop s.index.toNat).length ≤ rounds ∧
      IntLists.parseIntListFrom rounds (str.text.drop s.index.toNat) s.list s.errno = out

theorem Tail.last (tail : Tail str out s) (last : str.get s.index = nul) :
    out = ⟨MiniKVMError.success.code, s.list, s.errno⟩ := by
  obtain ⟨below, rounds, -, same⟩ := tail
  have done : str.text.drop s.index.toNat = [] := by
    rw [(get_eq_nul_iff below).mp last, List.drop_length]
  rw [← same, done]
  cases rounds <;> rfl

/-- One iteration on the text. -/
theorem Tail.next (tail : Tail str out s) (inside : s.index.toNat < str.text.length)
    {offset : UInt64} (below : s.index.toNat + offset.toNat ≤ str.text.length)
    (one : 1 ≤ offset.toNat)
    (taken : offset.toNat = IntLists.window (str.text.drop s.index.toNat)
      (str.text.drop s.index.toNat).length 1) :
    let text := str.text.drop s.index.toNat
    let read := Strings.miniKvmToUint text
      (offset.toNat - if 0 < text.length - offset.toNat then 1 else 0) 0 s.errno
    if offset.toNat < text.length ∧ text[offset.toNat - 1]? ≠ some ',' then
      ⟨MiniKVMError.argsFailed.code, s.list, s.errno⟩ = out
    else if read.ret ≠ MiniKVMError.success.code then ⟨read.ret, s.list, read.errno⟩ = out
    else Tail str out ⟨s.index + offset, vecAppend s.list read.dst, read.errno⟩ := by
  intro text read
  obtain ⟨-, rounds, left, same⟩ := tail
  have length : text.length = str.text.length - s.index.toNat := List.length_drop
  have short : text.length ≤ rounds := left
  obtain ⟨others, rfl⟩ : ∃ others, rounds = others + 1 := ⟨rounds - 1, by omega⟩
  have some : text ≠ [] := by
    apply List.ne_nil_of_length_pos
    omega
  have place : (s.index + offset).toNat = s.index.toNat + offset.toNat := toNat_add_of_le below
  rw [IntLists.parseIntListFrom, if_neg some] at same
  simp only [← taken] at same
  by_cases bad : offset.toNat < text.length ∧ text[offset.toNat - 1]? ≠ .some ','
  · rw [if_pos bad] at same ⊢
    exact same
  rw [if_neg bad] at same ⊢
  by_cases refused : read.ret ≠ MiniKVMError.success.code
  · rw [if_pos refused] at same ⊢
    exact same
  rw [if_neg refused] at same ⊢
  refine ⟨by rwa [place], others, ?_, ?_⟩
  · rw [List.length_drop, place]
    omega
  · rw [place, ← List.drop_drop]
    exact same

/-- One iteration, which ends the run or goes on behind what it has taken. -/
theorem ends_iteration (len : rawListLen.toNat = str.text.length) (enough : str.text.length < fuel)
    (s : Scan) :
    Ends (fun log => Tail str out s ∧ Reached str s.index log) (iteration fuel str rawListLen s)
      (AfterRound (fun s log => Tail str out s ∧ Reached str s.index log)
        (fun s => str.text.length - s.index.toNat) s
        fun result log => result = out ∧ InBounds str log) := by
  apply Ends.assuming
  intro tail
  have start := tail.1
  apply (ends_read (stable_reached s.index) start).bind
  intro c
  apply Ends.assuming
  rintro rfl
  apply Ends.ite
  · intro last
    exact Ends.leave fun _ reached => ⟨(tail.last last).symm, reached.toInBounds⟩
  · intro more
    have inside : s.index.toNat < str.text.length :=
      Nat.lt_of_le_of_ne start (mt (get_eq_nul_iff start).mpr more)
    apply (ends_window (stable_reached s.index) len inside enough).bind
    intro offset
    apply Ends.assuming
    rintro ⟨one, below, taken⟩
    have next := tail.next inside below one taken
    have length := toNat_length len one below
    have stable := @stable_reached str (s.index + offset)
    apply (ends_emit fun _ reached => reached.iteration one below).bind
    intro _
    apply (ends_misplaced stable len one below).bind
    intro bad
    apply Ends.assuming
    intro misplaced
    apply Ends.ite
    · intro here
      rw [if_pos (misplaced.mp here)] at next
      exact Ends.leave fun _ reached => ⟨next, reached.toInBounds⟩
    · intro good
      rw [if_neg (mt misplaced.mpr good), ← length] at next
      dsimp only
      generalize (offset - if 0 < rawListLen - (s.index + offset) then 1 else 0) = n at length next ⊢
      have given : Inside str (.toUint s.index offset n) := by
        rw [Inside, length, List.length_drop]
        split_ifs <;> omega
      apply (ends_emit fun _ reached => Reached.plain reached rfl given).bind
      intro _
      apply (ends_miniKvmToUint stable start enough 0 s.errno).bind
      intro read
      apply Ends.assuming
      rintro rfl
      apply Ends.ite
      · intro refused
        rw [if_pos refused] at next
        exact Ends.leave fun _ reached => ⟨next, reached.toInBounds⟩
      · intro accepted
        rw [if_neg accepted] at next
        have place := toNat_add_of_le below
        have less : str.text.length - (s.index + offset).toNat <
            str.text.length - s.index.toNat := by omega
        exact Ends.again less fun _ reached => ⟨next, reached⟩

/-- The run ends, in bounds, with what the text is read as. -/
theorem ends_miniKvmParseIntList (str : CString) (enough : str.text.length < fuel) (errno : Int) :
    Ends (fun log => log = []) (miniKvmParseIntList fuel str errno) fun result log =>
      result = IntLists.miniKvmParseIntList str.text errno ∧ InBounds str log := by
  have start : Ends (fun log => log = []) (strlen fuel str 0) fun len log =>
      (0 : UInt64).toNat + len.toNat = str.text.length ∧ Reached str 0 log :=
    (ends_strlen (stable_reached 0) (Nat.zero_le _) enough).weaken
      (fun _ empty => empty ▸ reached_start str) fun _ _ after => after
  apply start.bind
  intro rawListLen
  apply Ends.assuming
  intro len
  rw [UInt64.toNat_zero, Nat.zero_add] at len
  refine Ends.loop _ _ (ends_iteration len enough) ?_ enough
  intro log reached
  exact ⟨⟨Nat.zero_le _, _, Nat.le_refl _, rfl⟩, reached⟩

end OuterLoop

/-- The model on the text says what is returned. -/
theorem parse_int_list_text (str : CString) (errno : Int) {fuel : Nat}
    (enough : str.text.length < fuel) :
    ∃ log, miniKvmParseIntList fuel str errno [] =
      some (IntLists.miniKvmParseIntList str.text errno, log) := by
  obtain ⟨_, log, runs, rfl, -⟩ := ends_miniKvmParseIntList str enough errno [] rfl
  exact ⟨log, runs⟩

/-- Whatever is behind a string and in `errno`, with fuel for as many rounds as it has characters, and
one more, mini_kvm_parse_int_list returns, and has stayed in the string. -/
theorem parse_int_list_in_bounds (str : CString) (errno : Int) (fuel : Nat)
    (enough : str.text.length < fuel) :
    ∃ result log, miniKvmParseIntList fuel str errno [] = some (result, log) ∧ InBounds str log := by
  obtain ⟨result, log, runs, -, bounds⟩ := ends_miniKvmParseIntList str enough errno [] rfl
  exact ⟨result, log, runs, bounds⟩

/-- "1,,x", with a digit behind the NUL. -/
def malformed : CString := ⟨['1', ',', ',', 'x'], by decide, by decide, fun _ => '7'⟩

theorem malformed_in_bounds : ∃ result log,
    miniKvmParseIntList 5 malformed 0 [] = some (result, log) ∧ InBounds malformed log :=
  parse_int_list_in_bounds malformed 0 5 (by decide)

example : (miniKvmParseIntList 5 malformed 0 []).map (fun run => indices run.2) = some [0, 2, 3] := by
  decide

end MiniKvm.Guarantees.ListReads
