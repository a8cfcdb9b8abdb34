import Mathlib

/-!
# Vectors of numbers

vec_uint64_t of core/containers.c. Allocations succeed.
-/
namespace MiniKvm.Source.Containers

/-- The slots of `tab`, `none` where nothing has been stored, and `len`. -/
structure Vec where
  tab : List (Option UInt64)
  len : Nat
  deriving DecidableEq, Repr

/-- As many slots as were asked for. -/
def Vec.capacity (vec : Vec) : Nat := vec.tab.length

def vecNew : Vec := ⟨[none], 0⟩

def vecResize (vec : Vec) (capacity : Nat) : Vec :=
  if capacity ≤ vec.capacity then vec
  else { vec with tab := vec.tab.take vec.len ++ List.replicate (capacity - vec.len) none }

def vecAppend (vec : Vec) (value : UInt64) : Vec :=
  let vec := { vec with len := vec.len + 1 }
  let vec := if vec.capacity ≤ vec.len then vecResize vec (vec.capacity <<< 1) else vec
  { vec with tab := vec.tab.set (vec.len - 1) (some value) }

/-- `tab[i]`. -/
def Vec.get (vec : Vec) (i : Nat) : Option UInt64 := vec.tab[i]?.join

/-- The vector holds these values, in this order, and there is a slot to spare. -/
structure Vec.Holds (vec : Vec) (values : List UInt64) : Prop where
  len : vec.len = values.length
  room : vec.len < vec.capacity
  slots : vec.tab.take vec.len = values.map some

theorem holds_vecResize {vec : Vec} {values : List UInt64} (holds : vec.Holds values)
    (capacity : Nat) : (vecResize vec capacity).Holds values := by
  obtain ⟨len, room, slots⟩ := holds
  unfold vecResize
  split
  · exact ⟨len, room, slots⟩
  · next more =>
    have kept : (vec.tab.take vec.len).length = vec.len := by
      rw [List.length_take]
      exact Nat.min_eq_left room.le
    refine ⟨len, ?_, ?_⟩
    · simp only [Vec.capacity, List.length_append, kept, List.length_replicate] at room more ⊢
      omega
    · simp only
      rw [List.take_append_of_le_length (by omega), List.take_take, Nat.min_self, slots]

theorem holds_vecNew : vecNew.Holds [] := ⟨rfl, by decide, rfl⟩

/-- The slots before a store, and the one stored to. -/
theorem take_set {α : Type*} {l : List α} {i : Nat} (inside : i < l.length) (a : α) :
    (l.set i a).take (i + 1) = l.take i ++ [a] := by
  rw [List.take_succ_eq_append_getElem (by simpa using inside), List.take_set_of_le (Nat.le_refl i),
    List.getElem_set_self]

theorem holds_vecAppend {vec : Vec} {values : List UInt64} (holds : vec.Holds values)
    (value : UInt64) : (vecAppend vec value).Holds (values ++ [value]) := by
  obtain ⟨len, room, slots⟩ := holds
  have inside : vec.len < vec.tab.length := room
  unfold vecAppend
  simp only
  split
  · -- The slots are doubled, and the new slot is copied before it is stored to.
    have more : ¬ Vec.capacity ⟨vec.tab, vec.len + 1⟩ <<< 1 ≤
        Vec.capacity ⟨vec.tab, vec.len + 1⟩ := by
      rw [Nat.shiftLeft_eq]
      simp only [Vec.capacity]
      omega
    have kept : (vec.tab.take (vec.len + 1)).length = vec.len + 1 := by
      rw [List.length_take]
      exact Nat.min_eq_left inside
    rw [vecResize, if_neg more]
    simp only [Nat.add_sub_cancel]
    refine ⟨by simp [len], ?_, ?_⟩
    · simp only [Vec.capacity, List.length_set, List.length_append, kept, List.length_replicate,
        Nat.shiftLeft_eq]
      omega
    · simp only
      have stored : vec.len < (vec.tab.take (vec.len + 1) ++ List.replicate
          (Vec.capacity ⟨vec.tab, vec.len + 1⟩ <<< 1 - (vec.len + 1)) none).length := by
        rw [List.length_append, kept]
        omega
      rw [take_set stored, List.take_append_of_le_length (by omega), List.take_take,
        Nat.min_eq_left (Nat.le_succ _), slots, List.map_append]
      rfl
  · next roomy =>
    refine ⟨by simp [len], ?_, ?_⟩
    · simp only [Vec.capacity, List.length_set] at roomy ⊢
      omega
    · simp only [Nat.add_sub_cancel]
      rw [take_set inside, slots, List.map_append]
      rfl

theorem Vec.Holds.get {vec : Vec} {values : List UInt64} (holds : vec.Holds values) {i : Nat}
    (inside : i < vec.len) : vec.get i = values[i]? := by
  have slot : vec.tab[i]? = (values.map some)[i]? := by
    rw [← holds.slots, List.getElem?_take_of_lt inside]
  rw [Vec.get, slot, List.getElem?_map]
  cases values[i]? <;> rfl

end MiniKvm.Source.Containers
