import MiniKvm.Lib.ByteMem

/-!
# The x86-64 page walk

Four levels of tables with 512 entries of eight bytes, of which an address selects one with nine bits
each. A large entry in the third table from the top maps 2 MiB; one level up the bit is reserved, as
on processors without pages of 1 GiB. Levels count from the bottom.
-/
namespace MiniKvm.Lib.PageWalk

structure Translation where
  phys : Nat
  writable : Bool
  deriving DecidableEq, Repr

/-- The nine bits of an address that select the entry of a level. -/
def index (level va : Nat) : Nat := va / 2 ^ (12 + 9 * level) % 512

def entry (m : ByteMem) (table level va : Nat) : Nat := m.load (table + 8 * index level va) 8

def present (e : Nat) : Bool := e.testBit 0

def writable (e : Nat) : Bool := e.testBit 1

def large (e : Nat) : Bool := e.testBit 7

/-- The physical address in an entry, bits 51 to `low`. -/
def address (low e : Nat) : Nat := e % 2 ^ 52 / 2 ^ low * 2 ^ low

/-- The walk from the table of a level down. `writes` says whether the entries above allow writing. -/
def walkFrom (m : ByteMem) (va : Nat) : Nat → Nat → Bool → Option Translation
  | 0, table, writes =>
    let e := entry m table 0 va
    if present e then some ⟨address 12 e + va % 2 ^ 12, writes && writable e⟩ else none
  | level + 1, table, writes =>
    let e := entry m table (level + 1) va
    if present e then
      if large e then
        if level = 0 then some ⟨address 21 e + va % 2 ^ 21, writes && writable e⟩ else none
      else walkFrom m va level (address 12 e) (writes && writable e)
    else none

/-- Bits 63 to 47 of the address agree. -/
def Canonical (va : Nat) : Prop := va < 2 ^ 47 ∨ (2 ^ 64 - 2 ^ 47 ≤ va ∧ va < 2 ^ 64)

instance (va : Nat) : Decidable (Canonical va) := inferInstanceAs (Decidable (_ ∨ _))

def walk (m : ByteMem) (cr3 va : Nat) : Option Translation :=
  if Canonical va then walkFrom m va 3 (address 12 cr3) true else none

variable {m : ByteMem} {va table level : Nat} {writes : Bool}

theorem walkFrom_absent (absent : present (entry m table level va) = false) :
    walkFrom m va level table writes = none := by
  cases level <;> simp [walkFrom, absent]

theorem walkFrom_table {e : Nat} (found : entry m table (level + 1) va = e)
    (here : present e = true) (small : large e = false) :
    walkFrom m va (level + 1) table writes =
      walkFrom m va level (address 12 e) (writes && writable e) := by
  simp [walkFrom, found, here, small]

theorem walkFrom_large {e : Nat} (found : entry m table 1 va = e) (here : present e = true)
    (isLarge : large e = true) :
    walkFrom m va 1 table writes = some ⟨address 21 e + va % 2 ^ 21, writes && writable e⟩ := by
  simp [walkFrom, found, here, isLarge]

/-! ## One entry -/

/-- A page of zeros. -/
def Blank (m : ByteMem) (table : Nat) : Prop := ∀ a, table ≤ a → a < table + 4096 → m a = 0

theorem blank_fill {addr n : Nat} (low : addr ≤ table) (high : table + 4096 ≤ addr + n) :
    Blank (m.fill addr n 0) table :=
  fun _ low' high' => ByteMem.fill_inside (by omega) (by omega)

theorem Blank.store {addr n v : Nat} (blank : Blank m table)
    (apart : addr + n ≤ table ∨ table + 4096 ≤ addr) : Blank (m.store addr n v) table := by
  intro a low high
  rw [← blank a low high]
  rcases apart with before | behind
  · exact ByteMem.store_of_le (by omega)
  · exact ByteMem.store_of_lt (by omega)

/-- A table whose first entry is `e` and whose others are zero. -/
def Sole (m : ByteMem) (table e : Nat) : Prop :=
  ∀ i < 512, m.load (table + 8 * i) 8 = if i = 0 then e else 0

theorem Sole.entry {e : Nat} (sole : Sole m table e) (level va : Nat) :
    entry m table level va = if index level va = 0 then e else 0 :=
  sole _ (Nat.mod_lt _ (by decide))

theorem Blank.sole {e : Nat} (blank : Blank m table) (bound : e < 2 ^ 64) :
    Sole (m.store table 8 e) table e := by
  intro i inside
  split
  · next first =>
    rw [first]
    exact ByteMem.load_store_of_lt bound
  · rw [ByteMem.load_store_of_disjoint (.inr (by omega))]
    exact ByteMem.load_zeros fun a low high => blank a (by omega) (by omega)

theorem Sole.store {e addr n v : Nat} (sole : Sole m table e)
    (apart : addr + n ≤ table ∨ table + 4096 ≤ addr) : Sole (m.store addr n v) table e := by
  intro i inside
  rw [ByteMem.load_store_of_disjoint (by omega)]
  exact sole i inside

/-- The three upper indices of a canonical address are zero below 2 MiB only. -/
theorem lt_of_index_zero (canonical : Canonical va) (third : index 3 va = 0)
    (second : index 2 va = 0) (first : index 1 va = 0) : va < 2 ^ 21 := by
  unfold index at third second first
  rcases canonical with low | ⟨high, top⟩ <;> omega

/-- The 48 bits that the four indices and the offset make up. -/
theorem lt_of_index_zero_of_lt (bound : va < 2 ^ 48) (third : index 3 va = 0)
    (second : index 2 va = 0) (first : index 1 va = 0) : va < 2 ^ 21 := by
  unfold index at third second first
  omega

theorem index_zero_of_lt (low : va < 2 ^ 21) :
    index 3 va = 0 ∧ index 2 va = 0 ∧ index 1 va = 0 := by
  unfold index
  omega

theorem Sole.copy {e addr : Nat} {bytes : List UInt8} (sole : Sole m table e)
    (apart : addr + bytes.length ≤ table ∨ table + 4096 ≤ addr) :
    Sole (m.copy addr bytes) table e := by
  intro i inside
  rw [← sole i inside]
  refine ByteMem.load_congr fun a low high => ?_
  rcases apart with before | behind
  · exact ByteMem.copy_of_le (by omega)
  · exact ByteMem.copy_of_lt (by omega)

/-- Three tables with one entry each, the last one large, map an address where the three upper
indices are zero, and nothing else. -/
theorem walkFrom_sole {top e₃ e₂ e₁ : Nat} (third : Sole m top e₃)
    (second : Sole m (address 12 e₃) e₂) (first : Sole m (address 12 e₂) e₁)
    (here : present e₃ = true ∧ present e₂ = true ∧ present e₁ = true)
    (size : large e₃ = false ∧ large e₂ = false ∧ large e₁ = true) {va : Nat}
    (zeros : index 3 va = 0 → index 2 va = 0 → index 1 va = 0 → va < 2 ^ 21) :
    walkFrom m va 3 top true =
      if va < 2 ^ 21 then
        some ⟨address 21 e₁ + va, writable e₃ && (writable e₂ && writable e₁)⟩
      else none := by
  have absent {level table e : Nat} (sole : Sole m table e) (other : index level va ≠ 0) :
      present (entry m table level va) = false := by
    rw [sole.entry, if_neg other]
    rfl
  have found {level table e : Nat} (sole : Sole m table e) (zero : index level va = 0) :
      entry m table level va = e := by
    rw [sole.entry, if_pos zero]
  by_cases zero₃ : index 3 va = 0
  · rw [walkFrom_table (found third zero₃) here.1 size.1]
    by_cases zero₂ : index 2 va = 0
    · rw [walkFrom_table (found second zero₂) here.2.1 size.2.1]
      by_cases zero₁ : index 1 va = 0
      · have low := zeros zero₃ zero₂ zero₁
        rw [walkFrom_large (found first zero₁) here.2.2 size.2.2, if_pos low,
          Nat.mod_eq_of_lt low, Bool.true_and, Bool.and_assoc]
      · rw [walkFrom_absent (absent first zero₁),
          if_neg fun low => zero₁ (index_zero_of_lt low).2.2]
    · rw [walkFrom_absent (absent second zero₂),
        if_neg fun low => zero₂ (index_zero_of_lt low).2.1]
  · rw [walkFrom_absent (absent third zero₃), if_neg fun low => zero₃ (index_zero_of_lt low).1]

theorem walk_sole {e₃ e₂ e₁ : Nat} (cr3 : Nat) (top : Sole m (address 12 cr3) e₃)
    (middle : Sole m (address 12 e₃) e₂) (bottom : Sole m (address 12 e₂) e₁)
    (here : present e₃ = true ∧ present e₂ = true ∧ present e₁ = true)
    (size : large e₃ = false ∧ large e₂ = false ∧ large e₁ = true) (va : Nat) :
    walk m cr3 va =
      if va < 2 ^ 21 then
        some ⟨address 21 e₁ + va, writable e₃ && (writable e₂ && writable e₁)⟩
      else none := by
  unfold walk
  split
  · next canonical =>
    exact walkFrom_sole top middle bottom here size (lt_of_index_zero canonical)
  · next outside =>
    rw [if_neg fun low => outside (.inl (by omega))]

end MiniKvm.Lib.PageWalk
