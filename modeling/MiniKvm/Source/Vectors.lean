import MiniKvm.Source.Containers

/-!
# Vectors of any type

GEN_IMPL_VEC of core/containers.c, for elements of any size, in the arithmetic of size_t. Allocations
succeed. What is read and written in a buffer is recorded, with the size of that buffer.
-/
namespace MiniKvm.Source.Vectors

/-- `sizeof(type)`. -/
abbrev Size := { size : UInt64 // 0 < size }

/-- `count` elements from `first` on, in a buffer of `slots`. -/
structure Access where
  (first count slots : Nat)
  deriving DecidableEq, Repr

def Access.Inside (access : Access) : Prop := access.first + access.count ≤ access.slots

instance (access : Access) : Decidable access.Inside := inferInstanceAs (Decidable (_ ≤ _))

/-- The slots of `tab`, `none` where nothing has been stored, and the accesses up to now. -/
structure Vec (α : Type*) where
  tab : List (Option α)
  len : UInt64
  capacity : UInt64
  accesses : List Access
  deriving DecidableEq

section

variable {α : Type*} (size : Size)

/-- The elements in the bytes that malloc or memcpy is given for `n` of them. -/
def elements (n : UInt64) : Nat := (size.val * n).toNat / size.val.toNat

def vecNew : Vec α where
  tab := List.replicate (elements size 1) none
  len := 0
  capacity := 1
  accesses := []

def vecResize (vec : Vec α) (capacity : UInt64) : Int64 × Vec α :=
  if capacity ≤ vec.capacity then (-1, vec)
  else
    let slots := elements size capacity
    let count := elements size vec.len
    (0, { vec with
      tab := vec.tab.take count ++ List.replicate (slots - count) none
      capacity := capacity
      accesses := vec.accesses ++ [⟨0, count, vec.tab.length⟩, ⟨0, count, slots⟩] })

/-- The result of vec_resize is not looked at. -/
def vecAppend (vec : Vec α) (value : α) : Vec α :=
  let vec := { vec with len := vec.len + 1 }
  let vec := if vec.capacity ≤ vec.len then (vecResize size vec (vec.capacity <<< 1)).2 else vec
  let index := (vec.len - 1).toNat
  { vec with
    tab := vec.tab.set index (some value)
    accesses := vec.accesses ++ [⟨index, 1, vec.tab.length⟩] }

def vecPop (vec : Vec α) : Vec α := { vec with len := vec.len - 1 }

/-! ## What a vector stands for -/

/-- The vector holds these values, in this order, there is a slot to spare, and nothing has been
accessed outside of its buffer. -/
structure Vec.Holds (vec : Vec α) (values : List α) : Prop where
  len : vec.len.toNat = values.length
  room : vec.len < vec.capacity
  slots : vec.tab.length = vec.capacity.toNat
  values : vec.tab.take vec.len.toNat = values.map some
  inside : ∀ access ∈ vec.accesses, access.Inside

variable {size}

theorem elements_eq {n : UInt64} (fits : size.val.toNat * n.toNat < 2 ^ 64) :
    elements size n = n.toNat := by
  have pos : 0 < size.val.toNat := size.property
  rw [elements, UInt64.toNat_mul, Nat.mod_eq_of_lt fits, Nat.mul_div_cancel_left _ pos]

theorem vecNew_tab : (vecNew size : Vec α).tab = [none] := by
  have one : elements size 1 = 1 := by
    apply elements_eq
    have := size.val.toNat_lt
    simpa using this
  rw [vecNew, one]
  rfl

theorem holds_vecNew : (vecNew size : Vec α).Holds [] :=
  ⟨rfl, UInt64.lt_iff_toNat_lt.mpr Nat.zero_lt_one, by rw [vecNew_tab]; rfl, rfl, by simp [vecNew]⟩

/-- Nothing happens where the capacity is not larger. -/
theorem vecResize_small {vec : Vec α} {capacity : UInt64} (small : capacity ≤ vec.capacity) :
    vecResize size vec capacity = (-1, vec) := if_pos small

/-- Growing copies the first `len` slots, also where `len` has come to the capacity. -/
theorem vecResize_grow {vec : Vec α} {capacity : UInt64} (len : vec.len ≤ vec.capacity)
    (more : vec.capacity < capacity) (fits : size.val.toNat * capacity.toNat < 2 ^ 64) :
    vecResize size vec capacity = (0, { vec with
      tab := vec.tab.take vec.len.toNat ++ List.replicate (capacity.toNat - vec.len.toNat) none
      capacity := capacity
      accesses := vec.accesses ++
        [⟨0, vec.len.toNat, vec.tab.length⟩, ⟨0, vec.len.toNat, capacity.toNat⟩] }) := by
  have below : vec.len.toNat ≤ capacity.toNat := (UInt64.le_trans len (UInt64.le_of_lt more))
  have fewer : size.val.toNat * vec.len.toNat < 2 ^ 64 :=
    lt_of_le_of_lt (Nat.mul_le_mul_left _ below) fits
  rw [vecResize, if_neg (UInt64.not_le.mpr more)]
  simp only [elements_eq fits, elements_eq fewer]

/-- The slots of a larger buffer, into which `count` have been copied. -/
theorem length_copied {tab : List (Option α)} {count slots : Nat} (old : count ≤ tab.length)
    (new : count ≤ slots) :
    (tab.take count ++ List.replicate (slots - count) none).length = slots := by
  rw [List.length_append, List.length_take, List.length_replicate, Nat.min_eq_left old]
  omega

theorem take_copied {tab : List (Option α)} {count slots n : Nat} (old : count ≤ tab.length)
    (few : n ≤ count) :
    (tab.take count ++ List.replicate (slots - count) none).take n = tab.take n := by
  have enough : n ≤ (tab.take count).length := by
    rw [List.length_take, Nat.min_eq_left old]
    exact few
  rw [List.take_append_of_le_length enough, List.take_take, Nat.min_eq_left few]

/-- The read and the write of memcpy. -/
theorem inside_copied {accesses : List Access} {count old new : Nat}
    (inside : ∀ access ∈ accesses, access.Inside) (read : count ≤ old) (write : count ≤ new) :
    ∀ access ∈ accesses ++ [⟨0, count, old⟩, ⟨0, count, new⟩], access.Inside := by
  intro access member
  rcases List.mem_append.mp member with before | now
  · exact inside access before
  · simp only [List.mem_cons, List.not_mem_nil, or_false] at now
    rcases now with rfl | rfl <;> simpa only [Access.Inside, Nat.zero_add]

theorem holds_vecResize {vec : Vec α} {values : List α} (holds : vec.Holds values)
    {capacity : UInt64} (fits : vec.capacity < capacity → size.val.toNat * capacity.toNat < 2 ^ 64) :
    (vecResize size vec capacity).2.Holds values := by
  by_cases small : capacity ≤ vec.capacity
  · rw [vecResize_small small]
    exact holds
  · obtain ⟨len, room, slots, values, inside⟩ := holds
    have more : vec.capacity < capacity := UInt64.not_le.mp small
    have below : vec.len.toNat < vec.capacity.toNat := room
    have grows : vec.capacity.toNat < capacity.toNat := more
    rw [vecResize_grow (UInt64.le_of_lt room) more (fits more)]
    refine ⟨len, UInt64.lt_trans room more, ?_, ?_, ?_⟩
    · exact length_copied (by omega) (by omega)
    · have kept : (vec.tab.take vec.len.toNat ++
          List.replicate (capacity.toNat - vec.len.toNat) none).take vec.len.toNat =
            vec.tab.take vec.len.toNat := take_copied (by omega) (Nat.le_refl _)
      exact kept.trans values
    · exact inside_copied inside (by omega) (by omega)

/-- What vec_append stores to: a slot to spare behind the values, and one behind that. -/
structure Vec.Ready (vec : Vec α) (values : List α) : Prop where
  len : vec.len.toNat = values.length + 1
  room : vec.len < vec.capacity
  slots : vec.tab.length = vec.capacity.toNat
  values : vec.tab.take values.length = values.map some
  inside : ∀ access ∈ vec.accesses, access.Inside

/-- The store of vec_append. -/
def Vec.store (vec : Vec α) (value : α) : Vec α :=
  let index := (vec.len - 1).toNat
  { vec with
    tab := vec.tab.set index (some value)
    accesses := vec.accesses ++ [⟨index, 1, vec.tab.length⟩] }

theorem holds_store {vec : Vec α} {values : List α} (ready : vec.Ready values) (value : α) :
    (vec.store value).Holds (values ++ [value]) := by
  obtain ⟨len, room, slots, stored, inside⟩ := ready
  have below : vec.len.toNat < vec.capacity.toNat := room
  have index : (vec.len - 1).toNat = values.length := by
    rw [UInt64.toNat_sub_of_le _ _ (UInt64.le_iff_toNat_le.mpr (by simp; omega)), len]
    rfl
  have spare : values.length < vec.tab.length := by omega
  refine ⟨?_, room, ?_, ?_, ?_⟩
  · rw [List.length_append, List.length_singleton]
    exact len
  · rw [Vec.store, List.length_set]
    exact slots
  · simp only [Vec.store, index, len]
    rw [Containers.take_set spare, stored, List.map_append, List.map_singleton]
  · intro access member
    rcases List.mem_append.mp member with before | now
    · exact inside access before
    · cases List.mem_singleton.mp now
      simp only [Access.Inside, index]
      omega

/-- Where the doubled capacity is below 2^64, the shift doubles. -/
theorem toNat_doubled {capacity : UInt64} (fits : size.val.toNat * (2 * capacity.toNat) < 2 ^ 64) :
    (capacity <<< 1).toNat = 2 * capacity.toNat := by
  have pos : 0 < size.val.toNat := size.property
  have below : 2 * capacity.toNat < 2 ^ 64 :=
    lt_of_le_of_lt (Nat.le_mul_of_pos_left _ pos) fits
  rw [UInt64.toNat_shiftLeft, Nat.shiftLeft_eq]
  simp only [UInt64.toNat_one, Nat.one_mod, Nat.reducePow]
  omega

theorem Vec.Holds.next {vec : Vec α} {values : List α} (holds : vec.Holds values) :
    (vec.len + 1).toNat = vec.len.toNat + 1 := by
  have below : vec.len.toNat < vec.capacity.toNat := holds.room
  have bound := vec.capacity.toNat_lt
  rw [UInt64.toNat_add, UInt64.toNat_one]
  omega

/-- What vec_append makes of a full vector. The slot behind the values is copied too, before anything
has been stored to it. -/
theorem vecResize_full {vec : Vec α} {values : List α} (holds : vec.Holds values)
    (fits : size.val.toNat * (2 * vec.capacity.toNat) < 2 ^ 64) :
    vecResize size { vec with len := vec.len + 1 } (vec.capacity <<< 1) = (0, { vec with
      len := vec.len + 1
      tab := vec.tab.take (vec.len + 1).toNat ++
        List.replicate ((vec.capacity <<< 1).toNat - (vec.len + 1).toNat) none
      capacity := vec.capacity <<< 1
      accesses := vec.accesses ++ [⟨0, (vec.len + 1).toNat, vec.tab.length⟩,
        ⟨0, (vec.len + 1).toNat, (vec.capacity <<< 1).toNat⟩] }) := by
  have below : vec.len.toNat < vec.capacity.toNat := holds.room
  have doubled := toNat_doubled fits
  have more : vec.capacity < vec.capacity <<< 1 := by
    rw [UInt64.lt_iff_toNat_lt, doubled]
    omega
  have fewer : vec.len + 1 ≤ vec.capacity := by
    rw [UInt64.le_iff_toNat_le, holds.next]
    omega
  exact vecResize_grow fewer more (by rwa [doubled])

/-- Growing, where `len` has come to the capacity, leaves a slot to spare. -/
theorem ready_grown {vec : Vec α} {values : List α} (holds : vec.Holds values)
    (fits : vec.capacity ≤ vec.len + 1 → size.val.toNat * (2 * vec.capacity.toNat) < 2 ^ 64) :
    Vec.Ready (if vec.capacity ≤ vec.len + 1 then
      (vecResize size { vec with len := vec.len + 1 } (vec.capacity <<< 1)).2
      else { vec with len := vec.len + 1 }) values := by
  have next := holds.next
  have kept : vec.tab.take values.length = values.map some := by
    rw [← holds.len]
    exact holds.values
  have length := holds.len
  have slots := holds.slots
  have below : vec.len.toNat < vec.capacity.toNat := holds.room
  split
  · next full =>
    have doubled := toNat_doubled (fits full)
    have old : (vec.len + 1).toNat ≤ vec.tab.length := by omega
    have new : (vec.len + 1).toNat ≤ (vec.capacity <<< 1).toNat := by omega
    rw [vecResize_full holds (fits full)]
    refine ⟨?_, ?_, length_copied old new, ?_, inside_copied holds.inside old new⟩
    · exact next.trans (by rw [length])
    · rw [UInt64.lt_iff_toNat_lt, next, doubled]
      omega
    · have copied : (vec.tab.take (vec.len + 1).toNat ++ List.replicate
          ((vec.capacity <<< 1).toNat - (vec.len + 1).toNat) none).take values.length =
            vec.tab.take values.length := take_copied old (by omega)
      exact copied.trans kept
  · next roomy =>
    exact ⟨next.trans (by rw [length]), UInt64.not_le.mp roomy, slots, kept, holds.inside⟩

/-- The slot that vec_append stores to is a new one. -/
theorem holds_vecAppend {vec : Vec α} {values : List α} (holds : vec.Holds values) (value : α)
    (fits : vec.capacity ≤ vec.len + 1 → size.val.toNat * (2 * vec.capacity.toNat) < 2 ^ 64) :
    (vecAppend size vec value).Holds (values ++ [value]) :=
  holds_store (ready_grown holds fits) value

theorem holds_vecPop {vec : Vec α} {values : List α} (holds : vec.Holds values) (some : 0 < vec.len) :
    (vecPop vec).Holds values.dropLast := by
  obtain ⟨len, room, slots, stored, inside⟩ := holds
  have one : (1 : UInt64) ≤ vec.len := by
    rw [UInt64.le_iff_toNat_le]
    exact some
  have popped : (vec.len - 1).toNat = vec.len.toNat - 1 := UInt64.toNat_sub_of_le _ _ one
  refine ⟨?_, ?_, slots, ?_, inside⟩
  · rw [vecPop, popped, len, List.length_dropLast]
  · refine UInt64.lt_of_le_of_lt ?_ room
    rw [UInt64.le_iff_toNat_le, vecPop, popped]
    omega
  · simp only [vecPop, popped]
    rw [List.map_dropLast, ← stored, List.dropLast_eq_take, List.take_take, List.length_take]
    congr 1
    have : vec.len.toNat < vec.capacity.toNat := room
    omega

/-! ## The vector of parse_int_list -/

/-- A vector of numbers without the arithmetic of size_t. -/
def Vec.plain (vec : Vec UInt64) : Containers.Vec := ⟨vec.tab, vec.len.toNat⟩

theorem plain_vecNew : (vecNew size : Vec UInt64).plain = Containers.vecNew := by
  rw [Vec.plain, vecNew_tab]
  rfl

theorem plain_vecResize {vec : Vec UInt64} {values : List UInt64} (holds : vec.Holds values)
    {capacity : UInt64} (fits : vec.capacity < capacity → size.val.toNat * capacity.toNat < 2 ^ 64) :
    (vecResize size vec capacity).2.plain = Containers.vecResize vec.plain capacity.toNat := by
  obtain ⟨-, room, slots, -, -⟩ := holds
  have capacities : vec.plain.capacity = vec.capacity.toNat := slots
  by_cases small : capacity ≤ vec.capacity
  · rw [vecResize_small small, Containers.vecResize, if_pos]
    rw [capacities]
    exact small
  · have more : vec.capacity < capacity := UInt64.not_le.mp small
    rw [vecResize_grow (UInt64.le_of_lt room) more (fits more), Containers.vecResize, if_neg]
    · rfl
    · rw [capacities]
      exact small

/-- The two models of vec_append agree wherever the capacity fits. -/
theorem plain_vecAppend {vec : Vec UInt64} {values : List UInt64} (holds : vec.Holds values)
    (value : UInt64)
    (fits : vec.capacity ≤ vec.len + 1 → size.val.toNat * (2 * vec.capacity.toNat) < 2 ^ 64) :
    (vecAppend size vec value).plain = Containers.vecAppend vec.plain value := by
  have next := holds.next
  have slots := holds.slots
  have index : (vec.len + 1 - 1).toNat = vec.len.toNat := by simp
  unfold vecAppend Containers.vecAppend Vec.plain
  simp only [Containers.Vec.capacity, slots]
  by_cases full : vec.capacity ≤ vec.len + 1
  · have full' : vec.capacity.toNat ≤ vec.len.toNat + 1 := by
      rw [← next]
      exact full
    have doubled := toNat_doubled (fits full)
    have twice : vec.capacity.toNat <<< 1 = 2 * vec.capacity.toNat := by
      rw [Nat.shiftLeft_eq]
      omega
    have more : ¬ 2 * vec.capacity.toNat ≤ vec.capacity.toNat := by
      have : vec.len.toNat < vec.capacity.toNat := holds.room
      omega
    simp only [if_pos full, if_pos full', vecResize_full holds (fits full), Containers.vecResize,
      Containers.Vec.capacity, slots, twice, if_neg more, index, next, doubled, Nat.add_sub_cancel]
  · have roomy : ¬ vec.capacity.toNat ≤ vec.len.toNat + 1 := by
      rw [← next]
      exact full
    simp only [if_neg full, if_neg roomy, index, next, Nat.add_sub_cancel]

end

end MiniKvm.Source.Vectors
