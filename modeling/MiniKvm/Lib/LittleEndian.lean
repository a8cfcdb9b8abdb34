import Mathlib

/-!
# Numbers as bytes

Lowest byte first. A read that is shorter than the number it fills leaves the upper bytes as they
were.
-/
namespace MiniKvm.Lib.LittleEndian

/-- The low `width` bytes of a number. -/
def encode : Nat → Nat → List UInt8
  | 0, _ => []
  | width + 1, v => .ofNat v :: encode width (v / 256)

def decode : List UInt8 → Nat
  | [] => 0
  | b :: rest => b.toNat + 256 * decode rest

@[simp] theorem length_encode (width v : Nat) : (encode width v).length = width := by
  induction width generalizing v with
  | zero => rfl
  | succ width ih => rw [encode, List.length_cons, ih]

theorem decode_encode (width v : Nat) : decode (encode width v) = v % 256 ^ width := by
  induction width generalizing v with
  | zero => simp [encode, decode, Nat.mod_one]
  | succ width ih =>
    have low : (UInt8.ofNat v).toNat = v % 256 := UInt8.toNat_ofNat'
    rw [encode, decode, ih, low, Nat.pow_succ', Nat.mod_mul]

theorem decode_encode_of_lt {width v : Nat} (h : v < 256 ^ width) :
    decode (encode width v) = v := by
  rw [decode_encode, Nat.mod_eq_of_lt h]

/-- The number in the `width` bytes behind the first `offset`. -/
def field (bytes : List UInt8) (offset width : Nat) : Nat :=
  decode ((bytes.drop offset).take width)

/-- Numbers one behind the other, each with its width. -/
def encodeAll (fields : List (Nat × Nat)) : List UInt8 := fields.flatMap fun f => encode f.1 f.2

theorem length_encodeAll (fields : List (Nat × Nat)) :
    (encodeAll fields).length = (fields.map Prod.fst).sum := by
  simp [encodeAll, List.length_flatMap]

/-- Each number is found behind the widths of those before it. -/
theorem field_encodeAll (before after : List (Nat × Nat)) {width v : Nat} (h : v < 256 ^ width) :
    field (encodeAll (before ++ (width, v) :: after)) (before.map Prod.fst).sum width = v := by
  have split : encodeAll (before ++ (width, v) :: after) =
      encodeAll before ++ (encode width v ++ encodeAll after) := by
    simp [encodeAll]
  rw [field, split, List.drop_left' (length_encodeAll before),
    List.take_left' (length_encode width v), decode_encode_of_lt h]

/-- A buffer after a read of `bytes` into it; what does not fit is not read. -/
def overwrite (buffer bytes : List UInt8) : List UInt8 :=
  bytes.take buffer.length ++ buffer.drop bytes.length

@[simp] theorem length_overwrite (buffer bytes : List UInt8) :
    (overwrite buffer bytes).length = buffer.length := by
  simp [overwrite]
  omega

theorem overwrite_of_length {buffer bytes : List UInt8} (full : bytes.length = buffer.length) :
    overwrite buffer bytes = bytes := by
  rw [overwrite, full, List.drop_length, List.append_nil, List.take_of_length_le (by omega)]

theorem overwrite_nil (buffer : List UInt8) : overwrite buffer [] = buffer := by
  simp [overwrite]

end MiniKvm.Lib.LittleEndian
