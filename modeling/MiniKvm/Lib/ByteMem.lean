import Mathlib

/-!
# Byte memory

Memory as bytes, with little-endian loads and stores of any width. A store of `n + k` bytes is one of
`n` and one of `k` behind it, which is how a store of one width meets a load of another.
-/
namespace MiniKvm.Lib

/-- The byte at each address. -/
abbrev ByteMem := Nat → UInt8

namespace ByteMem

/-- The number in the `n` bytes from `addr` on, lowest byte first. -/
def load (m : ByteMem) (addr : Nat) : Nat → Nat
  | 0 => 0
  | n + 1 => (m addr).toNat + 256 * load m (addr + 1) n

/-- Stores the low `n` bytes of `v` from `addr` on. -/
def store (m : ByteMem) (addr n v : Nat) : ByteMem := fun a =>
  if addr ≤ a ∧ a < addr + n then UInt8.ofNat (v / 256 ^ (a - addr)) else m a

/-- Sets `n` bytes from `addr` on to `b`. -/
def fill (m : ByteMem) (addr n : Nat) (b : UInt8) : ByteMem := fun a =>
  if addr ≤ a ∧ a < addr + n then b else m a

/-- Copies bytes to `addr` and behind. -/
def copy (m : ByteMem) (addr : Nat) (bytes : List UInt8) : ByteMem := fun a =>
  if addr ≤ a then bytes.getD (a - addr) (m a) else m a

variable {m m' : ByteMem} {addr at' n k v : Nat}

theorem store_of_lt (h : at' < addr) : store m addr n v at' = m at' :=
  if_neg (by omega)

theorem store_of_le (h : addr + n ≤ at') : store m addr n v at' = m at' :=
  if_neg (by omega)

theorem fill_inside {b : UInt8} (low : addr ≤ at') (high : at' < addr + n) :
    fill m addr n b at' = b :=
  if_pos ⟨low, high⟩

theorem copy_of_lt {bytes : List UInt8} (h : at' < addr) : copy m addr bytes at' = m at' :=
  if_neg (by omega)

theorem copy_of_le {bytes : List UInt8} (h : addr + bytes.length ≤ at') :
    copy m addr bytes at' = m at' := by
  rw [copy, if_pos (by omega), List.getD_eq_default _ _ (by omega)]

theorem copy_inside {bytes : List UInt8} {i : Nat} (inside : i < bytes.length) :
    copy m addr bytes (addr + i) = bytes[i] := by
  rw [copy, if_pos (by omega), Nat.add_sub_cancel_left, List.getD_eq_getElem _ _ inside]

theorem copy_nil : copy m addr [] = m := by
  funext a
  by_cases low : a < addr
  · exact copy_of_lt low
  · exact copy_of_le (by simpa using low)

theorem load_congr (same : ∀ a, addr ≤ a → a < addr + n → m a = m' a) :
    load m addr n = load m' addr n := by
  induction n generalizing addr with
  | zero => rfl
  | succ n ih =>
    rw [load, load, same addr (Nat.le_refl _) (by omega),
      ih fun a low high => same a (by omega) (by omega)]

theorem load_lt (m : ByteMem) (addr n : Nat) : load m addr n < 256 ^ n := by
  induction n generalizing addr with
  | zero => exact Nat.one_pos
  | succ n ih =>
    have low : (m addr).toNat < 256 := (m addr).toNat_lt
    have high := ih (addr + 1)
    rw [load, Nat.pow_succ]
    omega

theorem load_add (m : ByteMem) (addr n k : Nat) :
    load m addr (n + k) = load m addr n + 256 ^ n * load m (addr + n) k := by
  induction n generalizing addr with
  | zero => simp [load]
  | succ n ih =>
    rw [Nat.add_right_comm, load, ih, load, Nat.add_right_comm addr 1 n, ← Nat.add_assoc]
    ring

theorem load_zeros (zeros : ∀ a, addr ≤ a → a < addr + n → m a = 0) : load m addr n = 0 := by
  induction n generalizing addr with
  | zero => rfl
  | succ n ih =>
    rw [load, zeros addr (Nat.le_refl _) (by omega),
      ih fun a low high => zeros a (by omega) (by omega)]
    rfl

theorem store_add (m : ByteMem) (addr n k v : Nat) :
    store m addr (n + k) v = store (store m addr n v) (addr + n) k (v / 256 ^ n) := by
  funext a
  by_cases first : a < addr + n
  · rw [store_of_lt first]
    unfold store
    by_cases low : addr ≤ a
    · rw [if_pos ⟨low, by omega⟩, if_pos ⟨low, first⟩]
    · rw [if_neg (by omega), if_neg (by omega)]
  · unfold store
    by_cases high : a < addr + (n + k)
    · rw [if_pos ⟨by omega, high⟩, if_pos ⟨by omega, by omega⟩, Nat.div_div_eq_div_mul,
        ← Nat.pow_add, show n + (a - (addr + n)) = a - addr by omega]
    · rw [if_neg (by omega), if_neg (by omega), if_neg (by omega)]

theorem load_store_of_disjoint (apart : at' + k ≤ addr ∨ addr + n ≤ at') :
    load (store m addr n v) at' k = load m at' k :=
  load_congr fun a low high => by
    rcases apart with before | behind
    · exact store_of_lt (by omega)
    · exact store_of_le (by omega)

theorem load_store (m : ByteMem) (addr n v : Nat) :
    load (store m addr n v) addr n = v % 256 ^ n := by
  induction n generalizing m addr v with
  | zero => simp [load, Nat.mod_one]
  | succ n ih =>
    have first : (store m addr (n + 1) v addr).toNat = v % 256 := by
      simp [store]
    have rest : load (store m addr (n + 1) v) (addr + 1) n = v / 256 % 256 ^ n := by
      rw [Nat.add_comm n 1, store_add, Nat.pow_one]
      exact ih _ _ _
    rw [load, first, rest, Nat.pow_succ', Nat.mod_mul]

theorem load_store_of_lt (h : v < 256 ^ n) : load (store m addr n v) addr n = v := by
  rw [load_store, Nat.mod_eq_of_lt h]

end ByteMem

end MiniKvm.Lib
