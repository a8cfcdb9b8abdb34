import MiniKvm.Source.Vectors

/-!
# Vectors as lists

Any mix of vec_new, vec_resize, vec_append and vec_pop. vec_append counts the new element before it
grows, so what the vector holds is always one less than it has room for.
-/
namespace MiniKvm.Guarantees.VectorLists
open Source Source.Vectors

inductive Op (α : Type*) where
  | new
  | resize (capacity : UInt64)
  | append (value : α)
  | pop
  deriving DecidableEq, Repr

section

variable {α : Type*} (size : Size)

/-- The record of the accesses goes on with a new vector. -/
def Op.apply (vec : Vec α) : Op α → Vec α
  | .new => { vecNew size with accesses := vec.accesses }
  | .resize capacity => (vecResize size vec capacity).2
  | .append value => vecAppend size vec value
  | .pop => vecPop vec

def Op.onList (values : List α) : Op α → List α
  | .new => []
  | .resize _ => values
  | .append value => values ++ [value]
  | .pop => values.dropLast

/-- The bytes of the capacity that is asked for are fewer than 2^64, and nothing is taken from an empty
vector. -/
def Op.Allowed (vec : Vec α) : Op α → Prop
  | .new => True
  | .resize capacity => vec.capacity < capacity → size.val.toNat * capacity.toNat < 2 ^ 64
  | .append _ =>
    vec.capacity ≤ vec.len + 1 → size.val.toNat * (2 * vec.capacity.toNat) < 2 ^ 64
  | .pop => 0 < vec.len

instance (vec : Vec α) (op : Op α) : Decidable (op.Allowed size vec) :=
  match op with
  | .new => inferInstanceAs (Decidable True)
  | .resize _ => inferInstanceAs (Decidable (_ → _))
  | .append _ => inferInstanceAs (Decidable (_ → _))
  | .pop => inferInstanceAs (Decidable (_ < _))

/-- Every operation is allowed where it comes. -/
def Allowed : Vec α → List (Op α) → Prop
  | _, [] => True
  | vec, op :: ops => op.Allowed size vec ∧ Allowed (op.apply size vec) ops

/-- From vec_new on. -/
def run (ops : List (Op α)) : Vec α := ops.foldl (Op.apply size) (vecNew size)

def listOf (ops : List (Op α)) : List α := ops.foldl Op.onList []

variable {size}

theorem holds_apply {vec : Vec α} {values : List α} (holds : vec.Holds values) {op : Op α}
    (allowed : op.Allowed size vec) : (op.apply size vec).Holds (op.onList values) := by
  cases op with
  | new =>
    obtain ⟨len, room, slots, stored, -⟩ := @holds_vecNew α size
    exact ⟨len, room, slots, stored, holds.inside⟩
  | resize capacity => exact holds_vecResize holds allowed
  | append value => exact holds_vecAppend holds value allowed
  | pop => exact holds_vecPop holds allowed

theorem holds_applyAll {vec : Vec α} {values : List α} (holds : vec.Holds values) {ops : List (Op α)}
    (allowed : Allowed size vec ops) :
    (ops.foldl (Op.apply size) vec).Holds (ops.foldl Op.onList values) := by
  induction ops generalizing vec values with
  | nil => exact holds
  | cons op ops ih =>
    obtain ⟨here, later⟩ := allowed
    exact ih (holds_apply holds here) later

theorem allowed_take {vec : Vec α} {ops : List (Op α)} (allowed : Allowed size vec ops) (k : Nat) :
    Allowed size vec (ops.take k) := by
  induction ops generalizing vec k with
  | nil => rwa [List.take_nil]
  | cons op ops ih =>
    obtain ⟨here, later⟩ := allowed
    cases k with
    | zero => trivial
    | succ k => exact ⟨here, ih later k⟩

variable (size)

/-- After every operation a vector holds what the list holds, with a slot to spare; all accesses were
inside their buffers; and a vec_resize that does not enlarge returns -1 and changes nothing. -/
theorem vector_refines_list (ops : List (Op α)) (allowed : Allowed size (vecNew size) ops) (k : Nat) :
    (run size (ops.take k)).Holds (listOf (ops.take k)) ∧
      ∀ capacity ≤ (run size (ops.take k)).capacity,
        vecResize size (run size (ops.take k)) capacity = (-1, run size (ops.take k)) :=
  ⟨holds_applyAll holds_vecNew (allowed_take allowed k), fun _ small => vecResize_small small⟩

end

/-- `sizeof(uint64_t)`. -/
def eight : Size := ⟨8, by decide⟩

/-- Explicit resizes between appends. -/
def mixed : List (Op UInt64) := [.append 7, .append 8, .resize 9, .resize 3, .append 9, .pop]

theorem mixed_refines : (run eight mixed).Holds [7, 8] :=
  (vector_refines_list eight mixed
    ⟨by decide, by decide, by decide, by decide, by decide, by decide, trivial⟩ 6).1

end MiniKvm.Guarantees.VectorLists
