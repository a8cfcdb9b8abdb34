import Mathlib

/-!
# Texts that can be read back

A `Format` prints the values of a type and reads one back off the front of a text, whatever stands
behind it as long as `Ends` holds of that. Formats are put together from texts that are always the
same, numerals, sequences, fields under labels, and lists up to where they stop; each of them comes
with the proof that it reads what it prints.
-/
namespace MiniKvm.Lib

structure Format (α : Type*) where
  print : α → List Char
  read : List Char → Option (α × List Char)
  Ends : List Char → Prop
  read_print : ∀ a rest, Ends rest → read (print a ++ rest) = some (a, rest)

namespace Format

variable {α β : Type*}

/-- The reader, for a text with nothing behind it. -/
def parse (f : Format α) (text : List Char) : Option α :=
  match f.read text with
  | some (a, []) => some a
  | _ => none

theorem parse_print (f : Format α) (ends : f.Ends []) (a : α) : f.parse (f.print a) = some a := by
  have back := f.read_print a [] ends
  rw [List.append_nil] at back
  simp only [parse, back]

/-! ## Sequences -/

/-- Behind a text that is always the same. -/
def after (before : List Char) (f : Format α) : Format α where
  print a := before ++ f.print a
  read text := (text.dropPrefix? before).bind f.read
  Ends := f.Ends
  read_print a rest ends := by
    rw [List.append_assoc, List.dropPrefix?_append_of_beq _ (beq_self_eq_true before),
      Option.bind_some, f.read_print a rest ends]

/-- Up to a text that is always the same. -/
def before (f : Format α) (behind : List Char) (ends : ∀ rest, f.Ends (behind ++ rest)) :
    Format α where
  print a := f.print a ++ behind
  read text := (f.read text).bind fun got => (got.2.dropPrefix? behind).map (got.1, ·)
  Ends _ := True
  read_print a rest _ := by
    rw [List.append_assoc, f.read_print a _ (ends rest), Option.bind_some,
      List.dropPrefix?_append_of_beq _ (beq_self_eq_true behind)]
    rfl

def seq (f : Format α) (g : Format β)
    (follows : ∀ b rest, g.Ends rest → f.Ends (g.print b ++ rest)) : Format (α × β) where
  print both := f.print both.1 ++ g.print both.2
  read text := (f.read text).bind fun got => (g.read got.2).map fun last => ((got.1, last.1), last.2)
  Ends := g.Ends
  read_print both rest ends := by
    rw [List.append_assoc, f.read_print _ _ (follows _ _ ends), Option.bind_some,
      g.read_print _ _ ends]
    rfl

/-- The values of another type, that have these as their parts. -/
def imap (f : Format α) (whole : α → β) (parts : β → α) (inverse : ∀ b, whole (parts b) = b) :
    Format β where
  print b := f.print (parts b)
  read text := (f.read text).map fun got => (whole got.1, got.2)
  Ends := f.Ends
  read_print b rest ends := by
    rw [f.read_print _ _ ends, Option.map_some, inverse]

/-- A text that is always the same. -/
def literal (text : List Char) : Format Unit where
  print _ := text
  read whole := (whole.dropPrefix? text).map ((), ·)
  Ends _ := True
  read_print _ rest _ := by
    rw [List.dropPrefix?_append_of_beq _ (beq_self_eq_true text)]
    rfl

/-- Texts of two kinds that `first` tells apart. -/
def either (f : Format α) (g : Format β) (first : List Char → Bool)
    (left : ∀ a rest, first (f.print a ++ rest) = true)
    (right : ∀ b rest, first (g.print b ++ rest) = false) : Format (α ⊕ β) where
  print := Sum.elim f.print g.print
  read text :=
    if first text then (f.read text).map fun got => (.inl got.1, got.2)
    else (g.read text).map fun got => (.inr got.1, got.2)
  Ends rest := f.Ends rest ∧ g.Ends rest
  read_print
    | .inl a, rest, ends => by
      rw [Sum.elim_inl, left, if_pos rfl, f.read_print a rest ends.1]
      rfl
    | .inr b, rest, ends => by
      rw [Sum.elim_inr, right, if_neg Bool.false_ne_true, g.read_print b rest ends.2]
      rfl

/-- One value under each label. -/
def fields (f : Format α) (ends : ∀ rest, f.Ends rest) :
    (labels : List (List Char)) → Format (Fin labels.length → α)
  | [] =>
    { print := fun _ => []
      read := fun text => some (fun i => i.elim0, text)
      Ends := fun _ => True
      read_print := fun _ _ _ => by
        rw [List.nil_append, Option.some.injEq, Prod.mk.injEq]
        exact ⟨funext fun i => i.elim0, rfl⟩ }
  | label :: labels =>
    ((f.after label).seq (fields f ends labels) fun _ _ _ => ends _).imap
      (fun both => Fin.cons both.1 both.2) (fun values => (values 0, Fin.tail values))
      Fin.cons_self_tail

/-! ## Lists -/

/-- With fuel for so many items, up to where `stop` holds of the text. -/
def readMany (read : List Char → Option (α × List Char)) (stop : List Char → Bool) :
    Nat → List Char → Option (List α × List Char)
  | 0, _ => none
  | fuel + 1, text =>
    if stop text then some ([], text)
    else (read text).bind fun got =>
      (readMany read stop fuel got.2).map fun last => (got.1 :: last.1, last.2)

theorem readMany_print {f : Format α} {stop : List Char → Bool} (ends : ∀ rest, f.Ends rest)
    (starts : ∀ a rest, stop (f.print a ++ rest) = false) {rest : List Char}
    (stops : stop rest = true) {fuel : Nat} {items : List α} (enough : items.length < fuel) :
    readMany f.read stop fuel (items.flatMap f.print ++ rest) = some (items, rest) := by
  induction items generalizing fuel with
  | nil =>
    cases fuel with
    | zero => cases enough
    | succ fuel => simp only [List.flatMap_nil, List.nil_append, readMany, stops, if_true]
  | cons item items ih =>
    cases fuel with
    | zero => cases enough
    | succ fuel =>
      have others := ih (Nat.lt_of_succ_lt_succ enough)
      rw [List.flatMap_cons, List.append_assoc, readMany, starts, if_neg Bool.false_ne_true,
        f.read_print _ _ (ends _), Option.bind_some, others]
      rfl

/-- Every item takes a character at least. -/
theorem length_le_flatMap {print : α → List Char} (nonempty : ∀ a, print a ≠ []) (items : List α) :
    items.length ≤ (items.flatMap print).length := by
  induction items with
  | nil => exact Nat.le_refl 0
  | cons item items ih =>
    have pos := List.length_pos_iff.mpr (nonempty item)
    rw [List.flatMap_cons, List.length_append, List.length_cons]
    omega

/-- Item after item, up to where `stop` holds of the text. -/
def many (f : Format α) (stop : List Char → Bool) (ends : ∀ rest, f.Ends rest)
    (starts : ∀ a rest, stop (f.print a ++ rest) = false) (nonempty : ∀ a, f.print a ≠ []) :
    Format (List α) where
  print items := items.flatMap f.print
  read text := readMany f.read stop (text.length + 1) text
  Ends rest := stop rest = true
  read_print items rest stops := by
    refine readMany_print ends starts stops ?_
    have := length_le_flatMap nonempty items
    rw [List.length_append]
    omega

/-! ## Numerals -/

/-- The digits of a number, with zeros in front up to this width. -/
def numeral (base width n : Nat) : List Char :=
  List.replicate (width - (Nat.toDigits base n).length) '0' ++ Nat.toDigits base n

/-- The value of a digit up to `f`. -/
def digit (c : Char) : Option Nat :=
  if c.isDigit then some (c.toNat - '0'.toNat)
  else if 'a' ≤ c ∧ c ≤ 'f' then some (c.toNat - 'a'.toNat + 10) else none

def isDigit (base : Nat) (c : Char) : Bool := (digit c).any (· < base)

def value (base : Nat) (digits : List Char) : Nat :=
  digits.foldl (fun n c => n * base + (digit c).getD 0) 0

section Numerals

variable {base : Nat}

theorem digit_digitChar {d : Nat} (small : d < 16) : digit d.digitChar = some d := by
  have all : ∀ d : Fin 16, digit (Nat.digitChar d) = some d.val := by decide
  exact all ⟨d, small⟩

theorem value_append_digit (digits : List Char) {d : Nat} (small : d < 16) :
    value base (digits ++ [d.digitChar]) = value base digits * base + d := by
  simp only [value, List.foldl_append, List.foldl_cons, List.foldl_nil, digit_digitChar small,
    Option.getD_some]

theorem value_toDigits (two : 1 < base) (hex : base ≤ 16) (n : Nat) :
    value base (Nat.toDigits base n) = n := by
  induction n using Nat.strong_induction_on with
  | _ n ih =>
    rw [Nat.toDigits_eq_if two]
    split
    · next small =>
      have alone : value base ([] ++ [n.digitChar]) = value base [] * base + n :=
        value_append_digit [] (by omega)
      simpa [value] using alone
    · next large =>
      have last := Nat.mod_lt n (Nat.zero_lt_of_lt two)
      have shorter := Nat.div_lt_self (show 0 < n by omega) two
      rw [value_append_digit _ (by omega), ih _ shorter, Nat.div_add_mod']

theorem value_zeros (k : Nat) (digits : List Char) :
    value base (List.replicate k '0' ++ digits) = value base digits := by
  have zero : digit '0' = some 0 := by decide
  induction k with
  | zero => rfl
  | succ k ih =>
    simpa only [List.replicate_succ, List.cons_append, value, List.foldl_cons, zero,
      Option.getD_some, Nat.zero_mul, Nat.add_zero] using ih

theorem value_numeral (two : 1 < base) (hex : base ≤ 16) (width n : Nat) :
    value base (numeral base width n) = n := by
  rw [numeral, value_zeros, value_toDigits two hex]

theorem isDigit_toDigits (two : 1 < base) (hex : base ≤ 16) {n : Nat} {c : Char}
    (member : c ∈ Nat.toDigits base n) : isDigit base c = true := by
  have isChar {d : Nat} (small : d < base) : isDigit base d.digitChar = true := by
    simp only [isDigit, digit_digitChar (show d < 16 by omega), Option.any_some,
      decide_eq_true small]
  induction n using Nat.strong_induction_on with
  | _ n ih =>
    rw [Nat.toDigits_eq_if two] at member
    split at member
    · next small =>
      rw [List.mem_singleton.mp member]
      exact isChar small
    · next large =>
      rcases List.mem_append.mp member with before | last
      · exact ih _ (Nat.div_lt_self (by omega) two) before
      · rw [List.mem_singleton.mp last]
        exact isChar (Nat.mod_lt n (Nat.zero_lt_of_lt two))

theorem isDigit_numeral (two : 1 < base) (hex : base ≤ 16) {width n : Nat} {c : Char}
    (member : c ∈ numeral base width n) : isDigit base c = true := by
  have zero : digit '0' = some 0 := by decide
  rcases List.mem_append.mp member with padding | digits
  · rw [List.eq_of_mem_replicate padding]
    simp only [isDigit, zero, Option.any_some, decide_eq_true (Nat.zero_lt_of_lt two)]
  · exact isDigit_toDigits two hex digits

theorem numeral_ne_nil (base width n : Nat) : numeral base width n ≠ [] := by
  simp [numeral]

/-- The first character is a digit. -/
theorem numeral_eq_cons (two : 1 < base) (hex : base ≤ 16) (width n : Nat) :
    ∃ c digits, numeral base width n = c :: digits ∧ isDigit base c = true := by
  obtain ⟨c, digits, eq⟩ := List.exists_cons_of_ne_nil (numeral_ne_nil base width n)
  exact ⟨c, digits, eq, isDigit_numeral two hex (eq ▸ List.mem_cons_self)⟩

/-- A number that has room in its width takes all of it. -/
theorem length_numeral (two : 1 < base) {width n : Nat} (pos : 0 < width) (room : n < base ^ width) :
    (numeral base width n).length = width := by
  have le := (Nat.length_toDigits_le_iff two pos).mpr room
  rw [numeral, List.length_append, List.length_replicate]
  omega

/-- Numerals of one width for the numbers of a type. -/
def fixed (base : Nat) (two : 1 < base) (hex : base ≤ 16) (width : Nat) (pos : 0 < width)
    (ofNat : Nat → α) (toNat : α → Nat) (room : ∀ a, toNat a < base ^ width)
    (inverse : ∀ a, ofNat (toNat a) = a) : Format α where
  print a := numeral base width (toNat a)
  read text :=
    if (text.take width).length = width ∧ (text.take width).all (isDigit base) = true then
      some (ofNat (value base (text.take width)), text.drop width) else none
  Ends _ := True
  read_print a rest _ := by
    have length := length_numeral two pos (room a)
    have digits : (numeral base width (toNat a)).all (isDigit base) = true :=
      List.all_eq_true.mpr fun c member => isDigit_numeral two hex member
    rw [List.take_left' length, List.drop_left' length, if_pos ⟨length, digits⟩,
      value_numeral two hex, inverse]

/-- Numerals of this width or more, up to a character that is no digit. -/
def padded (base : Nat) (two : 1 < base) (hex : base ≤ 16) (width : Nat) (ofNat : Nat → α)
    (toNat : α → Nat) (inverse : ∀ a, ofNat (toNat a) = a) : Format α where
  print a := numeral base width (toNat a)
  read text :=
    if text.takeWhile (isDigit base) = [] then none
    else some (ofNat (value base (text.takeWhile (isDigit base))), text.dropWhile (isDigit base))
  Ends rest := rest.takeWhile (isDigit base) = []
  read_print a rest ends := by
    have digits : ∀ c ∈ numeral base width (toNat a), isDigit base c = true := fun c member =>
      isDigit_numeral two hex member
    have left : rest.dropWhile (isDigit base) = rest := by
      have parts := List.takeWhile_append_dropWhile (p := isDigit base) (l := rest)
      rwa [ends, List.nil_append] at parts
    rw [List.takeWhile_append_of_pos digits, List.dropWhile_append_of_pos digits, ends, left,
      List.append_nil, if_neg (numeral_ne_nil _ _ _), value_numeral two hex, inverse]

section Bases

variable (width : Nat) (ofNat : Nat → α) (toNat : α → Nat) (inverse : ∀ a, ofNat (toNat a) = a)

def decimal : Format α := padded 10 (by decide) (by decide) width ofNat toNat inverse

def hexadecimal : Format α := padded 16 (by decide) (by decide) width ofNat toNat inverse

/-- Hexadecimal numerals of one width. -/
def hexOfWidth (pos : 0 < width) (room : ∀ a, toNat a < 16 ^ width) : Format α :=
  fixed 16 (by decide) (by decide) width pos ofNat toNat room inverse

end Bases

end Numerals

end Format

end MiniKvm.Lib
