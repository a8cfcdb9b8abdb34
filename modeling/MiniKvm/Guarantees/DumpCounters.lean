import MiniKvm.Guarantees.MemoryDump
import MiniKvm.Source.RunArgs

/-!
# Do the counters of a dump wrap?

The counters of mini_kvm_dump_mem are 32 bits wide and the range is not: `nb_lines`, the product that a
line is labelled with and the offset of a word wrap on a range of 4 GiB, wherever its lines end. Below
that they are exact, which is the exact condition but for the last word.
-/
namespace MiniKvm.Guarantees.DumpCounters
open Lib Source Source.DumpMem MemoryDump

/-! ## In numbers -/

/-- So many lines has a range of so many bytes. -/
def lines (bytes perLine : Nat) : Nat := bytes / perLine + if bytes % perLine ≠ 0 then 1 else 0

/-- Where the last line starts. -/
def lastLine (bytes perLine : Nat) : Nat := (lines bytes perLine - 1) * perLine

/-- The number of a word behind which its line is over: the word that ends the loop is one too many, for
it starts behind the end, or it is the last of a whole line. -/
def lastWord (bytes word perLine : Nat) : Nat :=
  min ((perLine - 1) / word) ((bytes - lastLine bytes perLine) / word + 1)

/-- The greatest offset that is computed. -/
def lastOffset (bytes word perLine : Nat) : Nat :=
  lastLine bytes perLine + word * lastWord bytes word perLine

/-- The greatest offset that is read. -/
def lastByte (bytes word perLine : Nat) : Nat :=
  lastLine bytes perLine + word * (min (perLine - 1) (bytes - lastLine bytes perLine) / word) +
    (word - 1)

/-- What the counters come to fits into 32 bits. -/
structure Small (bytes word perLine : Nat) : Prop where
  lines : lines bytes perLine < 2 ^ 32
  offsets : lastOffset bytes word perLine < 2 ^ 32
  reads : lastByte bytes word perLine < 2 ^ 32

section Numbers

variable {bytes perLine : Nat}

/-- The lines before the last one do not cover the range, and all of them do. -/
theorem exists_lines (pos : 0 < bytes) (perLine_pos : 0 < perLine) :
    ∃ q, lines bytes perLine = q + 1 ∧ perLine * q < bytes ∧ bytes ≤ perLine * q + perLine := by
  have whole := Nat.div_add_mod bytes perLine
  have less := Nat.mod_lt bytes perLine_pos
  unfold lines
  by_cases rest : bytes % perLine = 0
  · rw [if_neg (not_not_intro rest)]
    rw [rest] at whole
    cases quotient : bytes / perLine with
    | zero =>
      rw [quotient] at whole
      omega
    | succ q =>
      rw [quotient, Nat.mul_succ] at whole
      exact ⟨q, rfl, by omega, by omega⟩
  · rw [if_pos rest]
    exact ⟨_, rfl, by omega, by omega⟩

theorem lastLine_bounds (pos : 0 < bytes) (perLine_pos : 0 < perLine) :
    lastLine bytes perLine < bytes ∧ bytes ≤ lastLine bytes perLine + perLine := by
  obtain ⟨q, count, before, behind⟩ := exists_lines pos perLine_pos
  rw [lastLine, count, Nat.add_sub_cancel, Nat.mul_comm]
  exact ⟨before, behind⟩

/-- A line starts with the last one at the latest, and another one a line earlier. -/
theorem line_le {line : Nat} (inside : line < lines bytes perLine) :
    perLine * line ≤ lastLine bytes perLine ∧
      (line + 1 < lines bytes perLine → perLine * line + perLine ≤ lastLine bytes perLine) := by
  unfold lastLine
  rw [Nat.mul_comm _ perLine]
  refine ⟨Nat.mul_le_mul_left _ (by omega), fun more => ?_⟩
  rw [← Nat.mul_succ]
  exact Nat.mul_le_mul_left _ (by omega)

theorem eq_lastLine {line : Nat} (inside : line < lines bytes perLine)
    (last : ¬ line + 1 < lines bytes perLine) : perLine * line = lastLine bytes perLine := by
  rw [lastLine, Nat.mul_comm, show lines bytes perLine - 1 = line by omega]

end Numbers

/-! ## On the machine -/

/-- The range of a dump behind the alignments, and the sizes. -/
structure Request where
  (start stop : UInt64)
  (wordSize bytesPerLine : UInt32)

namespace Request

variable (r : Request)

def bytes : Nat := r.stop.toNat - r.start.toNat

/-- What a line is labelled with. -/
def label (line : UInt32) : UInt64 := r.start + (line * r.bytesPerLine).toUInt64

/-- The loop on `word` gets to the computation of `offset` in its round `k`, with this word. -/
def Computes (line : UInt32) (k : Nat) (word : UInt32) : Prop :=
  WhileLoop.nth (wordStep r.start r.stop r.wordSize r.bytesPerLine line) k 0 = some word ∧
    word < r.bytesPerLine

def offset (line word : UInt32) : UInt32 := word + r.bytesPerLine * line

/-- The counters are what they stand for, labels increase, and the bytes of a word are read at its
place, from the last to the first. -/
structure Exact : Prop where
  lines : (nbLines r.start r.stop r.bytesPerLine).toNat =
    DumpCounters.lines r.bytes r.bytesPerLine.toNat
  products : ∀ line < (nbLines r.start r.stop r.bytesPerLine).toNat,
    (UInt32.ofNat line * r.bytesPerLine).toNat = line * r.bytesPerLine.toNat
  offsets : ∀ line < (nbLines r.start r.stop r.bytesPerLine).toNat, ∀ k word,
    r.Computes (.ofNat line) k word → word.toNat = k * r.wordSize.toNat ∧
      (r.offset (.ofNat line) word).toNat =
        k * r.wordSize.toNat + r.bytesPerLine.toNat * line
  labels : ∀ line' < (nbLines r.start r.stop r.bytesPerLine).toNat, ∀ line < line',
    r.label (.ofNat line) < r.label (.ofNat line')
  reads : ∀ line < (nbLines r.start r.stop r.bytesPerLine).toNat, ∀ k word,
    r.Computes (.ofNat line) k word →
      ¬ r.stop < (r.offset (.ofNat line) word).toUInt64 + r.start →
        (readWord r.start r.wordSize (r.offset (.ofNat line) word)).map UInt64.toNat =
          (List.range r.wordSize.toNat).reverse.map fun j =>
            r.start.toNat + (k * r.wordSize.toNat + r.bytesPerLine.toNat * line) + j

/-- A range that is not empty, inside what an int64_t can hold but for a word. -/
structure Ordered : Prop where
  ordered : r.start.toNat < r.stop.toNat
  stop_lt : r.stop.toNat < 2 ^ 63 + 2 ^ 31

/-- The sizes are positive as int32_t, too. -/
structure Valid : Prop extends r.Ordered where
  wordSize_pos : 0 < r.wordSize.toNat
  wordSize_lt : r.wordSize.toNat < 2 ^ 31
  bytes_pos : 0 < r.bytesPerLine.toNat
  bytes_lt : r.bytesPerLine.toNat < 2 ^ 31

variable {r : Request} {line k : Nat} {word : UInt32}

/-- The loops of the request; guest memory plays no part. -/
def loops (r : Request) : Loops :=
  MemoryDump.loops 0 r.start r.stop r.wordSize r.bytesPerLine

/-- `bytes_per_line * line`. -/
def product (r : Request) (line : Nat) : Nat := (r.bytesPerLine * UInt32.ofNat line).toNat

theorem computes_iff : r.Computes (.ofNat line) k word ↔
    (∀ i < k, r.loops.Goes (r.product line) i) ∧ r.loops.word k < r.bytesPerLine.toNat ∧
      word = .ofNat (k * r.wordSize.toNat) := by
  have follows := follows_wordStep 0 r.start r.stop r.wordSize r.bytesPerLine (.ofNat line)
  have rounds := follows.nth_iff k word
  rw [Nat.zero_mul, show UInt32.ofNat 0 = 0 from rfl] at rounds
  rw [Computes, rounds, and_assoc]
  refine and_congr Iff.rfl ?_
  constructor
  · rintro ⟨rfl, inLine⟩
    refine ⟨?_, rfl⟩
    rwa [UInt32.lt_iff_toNat_lt, UInt32.toNat_ofNat'] at inLine
  · rintro ⟨inLine, rfl⟩
    refine ⟨rfl, ?_⟩
    rwa [UInt32.lt_iff_toNat_lt, UInt32.toNat_ofNat']

theorem word_eq (valid : r.Valid) (inLine : ∀ i < k, r.loops.word i < r.bytesPerLine.toNat) :
    r.loops.word k = k * r.wordSize.toNat := by
  have small := valid.wordSize_lt
  have short := valid.bytes_lt
  induction k with
  | zero => simp [Loops.word]
  | succ k ih =>
    have before := ih fun i inside => inLine i (by omega)
    have below := inLine k (Nat.lt_succ_self k)
    have next : r.loops.word (k + 1) = (k + 1) * r.wordSize.toNat % 2 ^ 32 := rfl
    rw [next, Nat.add_one_mul]
    exact Nat.mod_eq_of_lt (by omega)

/-- Where `word` is looked at, it has not wrapped. -/
theorem word_exact (valid : r.Valid) (computes : r.Computes (.ofNat line) k word) :
    word.toNat = k * r.wordSize.toNat ∧ k * r.wordSize.toNat < r.bytesPerLine.toNat := by
  obtain ⟨goes, inLine, rfl⟩ := computes_iff.mp computes
  have eq := word_eq valid fun i inside => (goes i inside).1
  rw [eq] at inLine
  have value : (UInt32.ofNat (k * r.wordSize.toNat)).toNat = r.loops.word k :=
    UInt32.toNat_ofNat'
  exact ⟨value.trans eq, inLine⟩

theorem offset_toNat (valid : r.Valid) (computes : r.Computes (.ofNat line) k word) :
    (r.offset (.ofNat line) word).toNat = (k * r.wordSize.toNat + r.product line) % 2 ^ 32 := by
  rw [offset, UInt32.toNat_add, (word_exact valid computes).1]
  rfl

theorem product_eq (r : Request) (line : Nat) :
    r.product line = r.bytesPerLine.toNat * line % 2 ^ 32 := by
  rw [product, UInt32.toNat_mul, UInt32.toNat_ofNat', Nat.mul_mod_mod]

/-- The loop goes on behind word `k` of a line whose offset fits. -/
theorem goes_iff (valid : r.Ordered) (word : r.loops.word k = k * r.wordSize.toNat)
    (fits : k * r.wordSize.toNat + r.product line < 2 ^ 32) :
    r.loops.Goes (r.product line) k ↔ k * r.wordSize.toNat < r.bytesPerLine.toNat ∧
      k * r.wordSize.toNat + r.product line ≤ r.bytes := by
  have start : r.loops.start = r.start.toNat := rfl
  have stop : r.loops.stop = r.stop.toNat := rfl
  have perLine : r.loops.bytesPerLine = r.bytesPerLine.toNat := rfl
  have := valid.ordered
  have := valid.stop_lt
  rw [Loops.Goes, Loops.place, word, Nat.mod_eq_of_lt fits, start, stop, perLine, bytes]
  omega

/-- The bytes of a word, at their places. -/
theorem map_readWord (pos : 0 < r.wordSize.toNat) (small : r.wordSize.toNat < 2 ^ 31)
    (offset : UInt32) :
    (readWord r.start r.wordSize offset).map UInt64.toNat =
      (List.range r.wordSize.toNat).reverse.map fun j =>
        ((offset.toNat + j) % 2 ^ 32 + r.start.toNat) % 2 ^ 64 := by
  have nonzero : r.wordSize ≠ 0 := by
    intro zero
    rw [zero] at pos
    exact absurd pos (Nat.lt_irrefl 0)
  rw [readWord, wordOffsets, wordOffsets_count nonzero, if_pos (by omega), List.map_map,
    List.map_map]
  exact List.map_congr_left fun j _ => toNat_read r.start offset j

theorem nbLines_toNat (valid : r.Ordered) :
    (nbLines r.start r.stop r.bytesPerLine).toNat =
      DumpCounters.lines r.bytes r.bytesPerLine.toNat % 2 ^ 32 := by
  have ordered : r.start ≤ r.stop := UInt64.le_iff_toNat_le.mpr valid.ordered.le
  have range : (r.stop - r.start).toNat = r.bytes := UInt64.toNat_sub_of_le _ _ ordered
  have quotient : ((r.stop - r.start) / r.bytesPerLine.toUInt64).toNat =
      r.bytes / r.bytesPerLine.toNat := by
    rw [UInt64.toNat_div, range, UInt32.toNat_toUInt64]
  have rest : (r.stop - r.start) % r.bytesPerLine.toUInt64 ≠ 0 ↔
      r.bytes % r.bytesPerLine.toNat ≠ 0 := by
    rw [Ne, ← UInt64.toNat_inj, UInt64.toNat_mod, range, UInt32.toNat_toUInt64]
    rfl
  simp only [nbLines, UInt64.toNat_toUInt32, UInt64.toNat_add, quotient, DumpCounters.lines]
  rw [Nat.mod_mod_of_dvd _ (by decide)]
  by_cases partly : r.bytes % r.bytesPerLine.toNat ≠ 0
  · rw [if_pos (rest.mpr partly), if_pos partly]
    rfl
  · rw [if_neg fun some => partly (rest.mp some), if_neg partly]
    rfl

/-! ### Small counters are exact -/

section Small

theorem bytes_pos (valid : r.Ordered) : 0 < r.bytes := by
  have := valid.ordered
  unfold bytes
  omega

theorem product_exact (small : Small r.bytes r.wordSize.toNat r.bytesPerLine.toNat)
    (inside : line < DumpCounters.lines r.bytes r.bytesPerLine.toNat) :
    r.product line = r.bytesPerLine.toNat * line := by
  have starts := (line_le inside).1
  have offsets := small.offsets
  rw [lastOffset] at offsets
  rw [product_eq, Nat.mod_eq_of_lt (by omega)]

theorem computes_of_lt (computes : r.Computes (.ofNat line) k word) {i : Nat} (before : i < k) :
    r.Computes (.ofNat line) i (.ofNat (i * r.wordSize.toNat)) := by
  obtain ⟨goes, -, -⟩ := computes_iff.mp computes
  exact computes_iff.mpr ⟨fun j less => goes j (by omega), (goes i before).1, rfl⟩

/-- A word whose offset is computed does not lie behind the last one. -/
theorem computed_le (valid : r.Valid) (small : Small r.bytes r.wordSize.toNat r.bytesPerLine.toNat)
    (inside : line < DumpCounters.lines r.bytes r.bytesPerLine.toNat)
    (computes : r.Computes (.ofNat line) k word) :
    k * r.wordSize.toNat + r.bytesPerLine.toNat * line ≤
      lastOffset r.bytes r.wordSize.toNat r.bytesPerLine.toNat := by
  have pos := valid.wordSize_pos
  obtain ⟨starts, more⟩ := line_le inside
  by_cases last : line + 1 < DumpCounters.lines r.bytes r.bytesPerLine.toNat
  · have := more last
    obtain ⟨-, inLine⟩ := word_exact valid computes
    rw [lastOffset]
    omega
  · have at_last := eq_lastLine inside last
    have few : k ≤ lastWord r.bytes r.wordSize.toNat r.bytesPerLine.toNat := by
      induction k generalizing word with
      | zero => exact Nat.zero_le _
      | succ k ih =>
        obtain ⟨-, inLine⟩ := word_exact valid computes
        have before := computes_of_lt computes (Nat.lt_succ_self k)
        have le := ih before
        have offsets := small.offsets
        have product := product_exact small inside
        have least := Nat.mul_le_mul_left r.wordSize.toNat le
        rw [lastOffset] at offsets
        rw [Nat.mul_comm] at least
        have goes := (goes_iff valid.toOrdered (word_eq valid fun i less =>
          ((computes_iff.mp computes).1 i (by omega)).1) (by omega)).mp
            ((computes_iff.mp computes).1 k (Nat.lt_succ_self k))
        refine Nat.le_min.mpr ⟨?_, ?_⟩
        · rw [Nat.le_div_iff_mul_le pos]
          omega
        · refine Nat.succ_le_succ ((Nat.le_div_iff_mul_le pos).mpr ?_)
          omega
    have least := Nat.mul_le_mul_left r.wordSize.toNat few
    rw [lastOffset, at_last, Nat.mul_comm k]
    omega

/-- A word that is read does not lie behind the last one that is. -/
theorem read_le (valid : r.Valid) (inside : line < DumpCounters.lines r.bytes r.bytesPerLine.toNat)
    (inLine : k * r.wordSize.toNat < r.bytesPerLine.toNat)
    (inRange : k * r.wordSize.toNat + r.bytesPerLine.toNat * line ≤ r.bytes) :
    k * r.wordSize.toNat + r.bytesPerLine.toNat * line + (r.wordSize.toNat - 1) ≤
      lastByte r.bytes r.wordSize.toNat r.bytesPerLine.toNat := by
  have pos := valid.wordSize_pos
  obtain ⟨starts, more⟩ := line_le inside
  by_cases last : line + 1 < DumpCounters.lines r.bytes r.bytesPerLine.toNat
  · have := more last
    rw [lastByte]
    omega
  · have at_last := eq_lastLine inside last
    have few : k ≤ min (r.bytesPerLine.toNat - 1)
        (r.bytes - lastLine r.bytes r.bytesPerLine.toNat) / r.wordSize.toNat := by
      rw [Nat.le_div_iff_mul_le pos]
      omega
    have least := Nat.mul_le_mul_left r.wordSize.toNat few
    rw [lastByte, at_last, Nat.mul_comm k]
    omega

theorem offset_exact (valid : r.Valid) (small : Small r.bytes r.wordSize.toNat r.bytesPerLine.toNat)
    (inside : line < DumpCounters.lines r.bytes r.bytesPerLine.toNat)
    (computes : r.Computes (.ofNat line) k word) :
    (r.offset (.ofNat line) word).toNat =
      k * r.wordSize.toNat + r.bytesPerLine.toNat * line := by
  have le := computed_le valid small inside computes
  have := small.offsets
  rw [offset_toNat valid computes, product_exact small inside, Nat.mod_eq_of_lt (by omega)]

theorem label_exact (valid : r.Valid) (small : Small r.bytes r.wordSize.toNat r.bytesPerLine.toNat)
    (inside : line < DumpCounters.lines r.bytes r.bytesPerLine.toNat) :
    (r.label (.ofNat line)).toNat = r.start.toNat + r.bytesPerLine.toNat * line := by
  obtain ⟨before, -⟩ := lastLine_bounds (bytes_pos valid.toOrdered) valid.bytes_pos
  have starts := (line_le inside).1
  have stop_lt := valid.stop_lt
  rw [label, UInt64.toNat_add, UInt32.toNat_toUInt64, UInt32.mul_comm, ← product,
    product_exact small inside]
  refine Nat.mod_eq_of_lt ?_
  unfold bytes at before starts
  omega

/-- A word that is read is read from its own bytes. -/
theorem read_exact (valid : r.Valid) (small : Small r.bytes r.wordSize.toNat r.bytesPerLine.toNat)
    (inside : line < DumpCounters.lines r.bytes r.bytesPerLine.toNat)
    (computes : r.Computes (.ofNat line) k word)
    (goesOn : ¬ r.stop < (r.offset (.ofNat line) word).toUInt64 + r.start) :
    (readWord r.start r.wordSize (r.offset (.ofNat line) word)).map UInt64.toNat =
      (List.range r.wordSize.toNat).reverse.map fun j =>
        r.start.toNat + (k * r.wordSize.toNat + r.bytesPerLine.toNat * line) + j := by
  have offset := offset_exact valid small inside computes
  have le := computed_le valid small inside computes
  have offsets := small.offsets
  have ordered := valid.ordered
  have stop_lt := valid.stop_lt
  have goes : k * r.wordSize.toNat + r.bytesPerLine.toNat * line ≤ r.bytes := by
    rw [UInt64.lt_iff_toNat_lt, UInt64.toNat_add, UInt32.toNat_toUInt64, offset] at goesOn
    unfold bytes
    omega
  have last := read_le valid inside (word_exact valid computes).2 goes
  have reads := small.reads
  rw [map_readWord valid.wordSize_pos valid.wordSize_lt, offset]
  refine List.map_congr_left fun j member => ?_
  rw [List.mem_reverse, List.mem_range] at member
  unfold bytes at goes
  omega

theorem exact_of_small (valid : r.Valid)
    (small : Small r.bytes r.wordSize.toNat r.bytesPerLine.toNat) : r.Exact := by
  have count : (nbLines r.start r.stop r.bytesPerLine).toNat =
      DumpCounters.lines r.bytes r.bytesPerLine.toNat := by
    rw [nbLines_toNat valid.toOrdered, Nat.mod_eq_of_lt small.lines]
  refine ⟨count, ?_, ?_, ?_, ?_⟩ <;> rw [count]
  · intro line inside
    rw [UInt32.mul_comm, ← product, product_exact small inside, Nat.mul_comm]
  · intro line inside k word computes
    exact ⟨(word_exact valid computes).1, offset_exact valid small inside computes⟩
  · intro line' inside line less
    rw [UInt64.lt_iff_toNat_lt, label_exact valid small inside,
      label_exact valid small (Nat.lt_trans less inside)]
    exact Nat.add_lt_add_left ((Nat.mul_lt_mul_left valid.bytes_pos).mpr less) _
  · intro line inside k word computes goesOn
    exact read_exact valid small inside computes goesOn

end Small

/-! ### Exact counters are small -/

section Exact

/-- The last line. -/
def lastOf (r : Request) : Nat := DumpCounters.lines r.bytes r.bytesPerLine.toNat - 1

theorem lastOf_bounds (valid : r.Valid) (exact : r.Exact) :
    r.lastOf < (nbLines r.start r.stop r.bytesPerLine).toNat ∧
      r.product r.lastOf = lastLine r.bytes r.bytesPerLine.toNat := by
  obtain ⟨q, count, -⟩ := exists_lines (bytes_pos valid.toOrdered) valid.bytes_pos
  have inside : r.lastOf < (nbLines r.start r.stop r.bytesPerLine).toNat := by
    rw [exact.lines, lastOf, count]
    omega
  refine ⟨inside, ?_⟩
  rw [product, UInt32.mul_comm, exact.products _ inside]
  rfl

theorem offset_fits (valid : r.Valid) (exact : r.Exact)
    (computes : r.Computes (.ofNat r.lastOf) k word) :
    k * r.wordSize.toNat + lastLine r.bytes r.bytesPerLine.toNat < 2 ^ 32 := by
  have offset := (exact.offsets _ (lastOf_bounds valid exact).1 k word computes).2
  rw [Nat.mul_comm r.bytesPerLine.toNat] at offset
  exact offset ▸ UInt32.toNat_lt _

/-- All words up to the last one are computed. -/
theorem computes_of_le (valid : r.Valid) (exact : r.Exact)
    (le : k ≤ lastWord r.bytes r.wordSize.toNat r.bytesPerLine.toNat) :
    r.Computes (.ofNat r.lastOf) k (.ofNat (k * r.wordSize.toNat)) := by
  have pos := valid.wordSize_pos
  obtain ⟨inside, product⟩ := lastOf_bounds valid exact
  obtain ⟨before, -⟩ := lastLine_bounds (bytes_pos valid.toOrdered) valid.bytes_pos
  induction k with
  | zero =>
    refine computes_iff.mpr ⟨fun i less => absurd less (Nat.not_lt_zero i), ?_, rfl⟩
    rw [Loops.word, Nat.zero_mul, Nat.zero_mod]
    exact valid.bytes_pos
  | succ k ih =>
    have computes := ih (by omega)
    have fits := offset_fits valid exact computes
    obtain ⟨inWord, inRange⟩ := Nat.le_min.mp le
    rw [Nat.le_div_iff_mul_le pos] at inWord
    have reach := (Nat.le_div_iff_mul_le pos).mp (Nat.le_of_succ_le_succ inRange)
    have next : k * r.wordSize.toNat + r.wordSize.toNat = (k + 1) * r.wordSize.toNat :=
      (Nat.add_one_mul _ _).symm
    obtain ⟨goes, -, -⟩ := computes_iff.mp computes
    have here := (goes_iff valid.toOrdered (word_eq valid fun i less => (goes i less).1)
      (by rwa [product])).mpr ⟨by omega, by omega⟩
    have goes (i : Nat) (less : i < k + 1) : r.loops.Goes (r.product r.lastOf) i := by
      rcases Nat.lt_succ_iff_lt_or_eq.mp less with before | rfl
      · exact goes i before
      · exact here
    refine computes_iff.mpr ⟨goes, ?_, rfl⟩
    rw [word_eq valid fun i less => (goes i less).1]
    omega

theorem small_of_exact (valid : r.Valid) (exact : r.Exact) :
    Small r.bytes r.wordSize.toNat r.bytesPerLine.toNat := by
  have pos := valid.wordSize_pos
  obtain ⟨inside, -⟩ := lastOf_bounds valid exact
  obtain ⟨before, -⟩ := lastLine_bounds (bytes_pos valid.toOrdered) valid.bytes_pos
  refine ⟨?_, ?_, ?_⟩
  · rw [← exact.lines]
    exact UInt32.toNat_lt _
  · rw [lastOffset, Nat.add_comm, Nat.mul_comm]
    exact offset_fits valid exact (computes_of_le valid exact (Nat.le_refl _))
  · have last := Nat.div_mul_le_self (min (r.bytesPerLine.toNat - 1)
      (r.bytes - lastLine r.bytes r.bytesPerLine.toNat)) r.wordSize.toNat
    rw [lastByte, Nat.mul_comm]
    generalize chosen : min (r.bytesPerLine.toNat - 1)
      (r.bytes - lastLine r.bytes r.bytesPerLine.toNat) / r.wordSize.toNat = k at last ⊢
    have le : k ≤ lastWord r.bytes r.wordSize.toNat r.bytesPerLine.toNat := by
      rw [← chosen]
      refine Nat.le_min.mpr ⟨Nat.div_le_div_right (Nat.min_le_left _ _), ?_⟩
      exact Nat.le_succ_of_le (Nat.div_le_div_right (Nat.min_le_right _ _))
    have computes := computes_of_le valid exact le
    have fits := offset_fits valid exact computes
    have offset := (exact.offsets _ inside k _ computes).2
    have whole : r.bytesPerLine.toNat * r.lastOf = lastLine r.bytes r.bytesPerLine.toNat :=
      Nat.mul_comm _ _
    have ordered := valid.ordered
    have stop_lt := valid.stop_lt
    have small := valid.wordSize_lt
    have goesOn : ¬ r.stop <
        (r.offset (.ofNat r.lastOf) (.ofNat (k * r.wordSize.toNat))).toUInt64 + r.start := by
      rw [UInt64.lt_iff_toNat_lt, UInt64.toNat_add, UInt32.toNat_toUInt64, offset, whole]
      unfold bytes at last before fits ⊢
      omega
    have reads := exact.reads _ inside k _ computes goesOn
    rw [map_readWord valid.wordSize_pos valid.wordSize_lt, offset, whole] at reads
    have byte := List.map_inj_left.mp reads (r.wordSize.toNat - 1)
      (List.mem_reverse.mpr (List.mem_range.mpr (by omega)))
    unfold bytes at last before fits byte ⊢
    omega

end Exact

end Request

/-! ## The dump -/

/-- What mini_kvm_dump_mem works on. -/
def request (memSize : Int64) (start stop : UInt64) (wordSize bytesPerLine : UInt32) : Request :=
  ⟨alignStart start wordSize, alignEnd memSize stop wordSize, wordSize, bytesPerLine⟩

theorem valid_request {memSize : Int64} {start stop : UInt64} {wordSize bytesPerLine : UInt32}
    (ordered : start < stop) (inside : (stop.toNat : Int) ≤ memSize.toInt)
    (words : 1 ≤ wordSize.toNat ∧ wordSize.toNat ≤ 2 ^ 31 - 1)
    (perLine : 1 ≤ bytesPerLine.toNat ∧ bytesPerLine.toNat ≤ 2 ^ 31 - 1) :
    (request memSize start stop wordSize bytesPerLine).Valid := by
  have starts : (alignStart start wordSize).toNat ≤ start.toNat := by
    rw [alignStart_toNat]
    exact Nat.sub_le _ _
  have below := memSize.toInt_lt
  obtain ⟨up, upTo⟩ := roundUp_bounds (Nat.lt_of_succ_le words.1) stop.toNat
  have stops : stop.toNat ≤ (alignEnd memSize stop wordSize).toNat ∧
      (alignEnd memSize stop wordSize).toNat < 2 ^ 63 + 2 ^ 31 := by
    rcases alignEnd_toNat wordSize inside (by omega) with eq | ⟨eq, le⟩ <;> omega
  have less := UInt64.lt_iff_toNat_lt.mp ordered
  exact ⟨⟨Nat.lt_of_le_of_lt starts (Nat.lt_of_lt_of_le less stops.1), stops.2⟩, words.1,
    Nat.lt_of_le_of_lt words.2 (by decide), perLine.1, Nat.lt_of_le_of_lt perLine.2 (by decide)⟩

/-- The counters of a dump inside guest memory are exact exactly when what they come to is small. -/
theorem exact_iff_small {memSize : Int64} {start stop : UInt64} {wordSize bytesPerLine : UInt32}
    (ordered : start < stop) (inside : (stop.toNat : Int) ≤ memSize.toInt)
    (words : 1 ≤ wordSize.toNat ∧ wordSize.toNat ≤ 2 ^ 31 - 1)
    (perLine : 1 ≤ bytesPerLine.toNat ∧ bytesPerLine.toNat ≤ 2 ^ 31 - 1) :
    (request memSize start stop wordSize bytesPerLine).Exact ↔
      Small (request memSize start stop wordSize bytesPerLine).bytes wordSize.toNat
        bytesPerLine.toNat := by
  have valid := valid_request ordered inside words perLine
  exact ⟨Request.small_of_exact valid, Request.exact_of_small valid⟩

theorem fourMegabytes_exact : (request 0x400000 0 0x400000 2 16).Exact :=
  (exact_iff_small (by decide) (by decide) (by decide) (by decide)).mpr
    ⟨by decide, by decide, by decide⟩

/-- Of 8 GiB, line 2^28 is labelled as the first one is. -/
theorem eightGigabytes_wrap :
    RunArgs.parseMem "8G".toList 0 0 = ⟨MiniKVMError.success.code, 0x200000000, 0⟩ ∧
      ¬ (request 0x200000000 0 0x200000000 2 16).Exact := by
  refine ⟨by decide, fun exact => ?_⟩
  have label := exact.products (2 ^ 28) (by decide)
  exact absurd label (by decide)

end MiniKvm.Guarantees.DumpCounters
