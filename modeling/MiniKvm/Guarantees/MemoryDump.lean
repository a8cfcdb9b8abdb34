import MiniKvm.Source.Boot
import MiniKvm.Source.DumpMem

/-!
# Is every dump of memory safe?

It is not: mini_kvm_dump_mem divides by the sizes of the request, its words run past the end by up to
a word, and its counters wrap. The loops are brought from the machine integers to numbers, and the
exact condition is one on each line, or on the 4 GiB from the start on where those are guest memory.
-/
namespace MiniKvm.Guarantees.MemoryDump
open Lib Source Source.DumpMem

/-! ## The loops in numbers -/

/-- What the loops of mini_kvm_dump_mem work on, behind the two alignments. -/
structure Loops where
  (memSize start stop wordSize bytesPerLine lines : Nat)

namespace Loops

/-- Where an offset of a uint32_t lies in guest memory, modulo 2^64. -/
def place (d : Loops) (offset : Nat) : Nat := (offset % 2 ^ 32 + d.start) % 2 ^ 64

/-- The value of `word` after `k` words. -/
def word (d : Loops) (k : Nat) : Nat := k * d.wordSize % 2 ^ 32

/-- The loop on `word` does not leave at word `k` of a line that is at offset `y`. -/
def Goes (d : Loops) (y k : Nat) : Prop :=
  d.word k < d.bytesPerLine ∧ d.place (d.word k + y) ≤ d.stop

/-- The bytes of word `k`; none are read where `word_size - 1` is negative as an int32_t. -/
def WordInside (d : Loops) (y k : Nat) : Prop :=
  d.wordSize ≤ 2 ^ 31 → ∀ j < d.wordSize, d.place (d.word k + y + j) < d.memSize

/-- A line ends, and reads inside guest memory only. -/
def LineSafe (d : Loops) (y : Nat) : Prop :=
  (∃ n, ¬ d.Goes y n) ∧ ∀ k, (∀ i ≤ k, d.Goes y i) → d.WordInside y k

/-- `bytes_per_line * line`, a uint32_t. -/
def lineOffset (d : Loops) (line : Nat) : Nat := d.bytesPerLine * line % 2 ^ 32

/-- The number of the last word that starts inside the line, not behind the end, and below 2^32. -/
def count (d : Loops) (y : Nat) : Nat :=
  min (d.bytesPerLine - 1) (min (d.stop - d.place y) (2 ^ 32 - 1 - y)) / d.wordSize

/-- The offset of that word into the line. -/
def last (d : Loops) (y : Nat) : Nat := d.wordSize * d.count y

/-- A line that starts at or below the end has its last word inside guest memory, and below 2^32. -/
def LineFits (d : Loops) (y : Nat) : Prop :=
  d.place y ≤ d.stop →
    d.place y + d.last y + d.wordSize ≤ d.memSize ∧ y + d.last y + d.wordSize ≤ 2 ^ 32

/-- Every value of `word` is a multiple of the gcd: the loop leaves at the greatest, or by an offset
behind the end. -/
def Ends (d : Loops) : Prop :=
  d.lines = 0 ∨ d.stop < d.start ∨ d.bytesPerLine ≤ 2 ^ 32 - Nat.gcd d.wordSize (2 ^ 32) ∨
    d.stop + Nat.gcd d.wordSize (2 ^ 32) < d.start + 2 ^ 32 ∧
      d.stop + Nat.gcd d.wordSize (2 ^ 32) < 2 ^ 64

/-- No word is read, or any would be inside guest memory. -/
def Roomy (d : Loops) : Prop := 2 ^ 31 < d.wordSize ∨ d.start + 2 ^ 32 ≤ d.memSize

/-- The ranges of the integers, and what the alignment of the start leaves. -/
structure Valid (d : Loops) : Prop where
  wordSize_pos : 0 < d.wordSize
  wordSize_lt : d.wordSize < 2 ^ 32
  bytes_pos : 0 < d.bytesPerLine
  bytes_lt : d.bytesPerLine < 2 ^ 32
  aligned : d.wordSize ∣ d.start
  start_lt : d.start < 2 ^ 64
  memSize_lt : d.memSize < 2 ^ 63

variable {d : Loops} {y : Nat}

/-! ### Where the 4 GiB from the start on are guest memory -/

theorem wordInside_of_roomy (valid : d.Valid) (roomy : d.Roomy) (k : Nat) : d.WordInside y k := by
  intro small j _
  have := valid.memSize_lt
  rcases roomy with wide | room
  · omega
  · unfold place
    omega

theorem gcd_bounds (valid : d.Valid) :
    0 < Nat.gcd d.wordSize (2 ^ 32) ∧ Nat.gcd d.wordSize (2 ^ 32) < 2 ^ 32 := by
  have pos := valid.wordSize_pos
  exact ⟨Nat.gcd_pos_of_pos_left _ pos,
    Nat.lt_of_le_of_lt (Nat.gcd_le_left _ pos) valid.wordSize_lt⟩

/-- Where a multiple of the gcd is the offset into the residue class of a line, a word is there. -/
theorem exists_word_at (valid : d.Valid) {o : Nat} (inside : o < 2 ^ 32) (bound : y < 2 ^ 32)
    (same : o % Nat.gcd d.wordSize (2 ^ 32) = y % Nat.gcd d.wordSize (2 ^ 32)) :
    ∃ k, d.place (d.word k + y) = (o + d.start) % 2 ^ 64 := by
  have whole : Nat.gcd d.wordSize (2 ^ 32) ∣ 2 ^ 32 := Nat.gcd_dvd_right _ _
  have shifted : y ≡ o + 2 ^ 32 [MOD Nat.gcd d.wordSize (2 ^ 32)] :=
    Nat.ModEq.trans (Eq.symm same) (Nat.ModEq.add_left o (Nat.modEq_zero_iff_dvd.mpr whole)).symm
  have apart : Nat.gcd d.wordSize (2 ^ 32) ∣ (o + 2 ^ 32 - y) % 2 ^ 32 :=
    (Nat.dvd_mod_iff whole).mpr ((Nat.modEq_iff_dvd' (by omega)).mp shifted)
  obtain ⟨k, at_k⟩ := WhileLoop.exists_mul_mod_eq valid.wordSize_pos valid.wordSize_lt
    (Nat.mod_lt _ (by decide)) apart
  refine ⟨k, ?_⟩
  unfold place word
  rw [at_k]
  congr 2
  omega

/-- The start is a multiple of the gcd, and 2^64 is one too. -/
theorem start_add_gcd_le (valid : d.Valid) :
    d.start + Nat.gcd d.wordSize (2 ^ 32) ≤ 2 ^ 64 := by
  have whole : Nat.gcd d.wordSize (2 ^ 32) ∣ 2 ^ 64 :=
    Nat.dvd_trans (Nat.gcd_dvd_right _ _) (by decide)
  have multiple : Nat.gcd d.wordSize (2 ^ 32) ∣ d.start :=
    Nat.dvd_trans (Nat.gcd_dvd_left _ _) valid.aligned
  have := valid.start_lt
  have := Nat.le_of_dvd (by omega) (Nat.dvd_sub whole multiple)
  omega

/-- Below a bound that is a multiple of the gcd, each residue class has an offset in the last step. -/
theorem exists_offset_below {bound : Nat} (pos : 0 < bound)
    (multiple : Nat.gcd d.wordSize (2 ^ 32) ∣ bound) (y : Nat) :
    ∃ o < bound, bound ≤ o + Nat.gcd d.wordSize (2 ^ 32) ∧
      o % Nat.gcd d.wordSize (2 ^ 32) = y % Nat.gcd d.wordSize (2 ^ 32) := by
  obtain ⟨q, rfl⟩ := multiple
  have gcd_pos := Nat.pos_of_mul_pos_right pos
  obtain ⟨q, rfl⟩ : ∃ p, q = p + 1 := ⟨q - 1, by have := Nat.pos_of_mul_pos_left pos; omega⟩
  have less := Nat.mod_lt y gcd_pos
  refine ⟨Nat.gcd d.wordSize (2 ^ 32) * q + y % Nat.gcd d.wordSize (2 ^ 32), ?_, ?_, ?_⟩
  · rw [Nat.mul_succ]
    omega
  · rw [Nat.mul_succ]
    omega
  · rw [Nat.mul_add_mod, Nat.mod_mod]

theorem exists_stop_of_ends (valid : d.Valid) (ends : d.Ends) (lines : d.lines ≠ 0)
    (bound : y < 2 ^ 32) : ∃ n, ¬ d.Goes y n := by
  obtain ⟨gcd_pos, gcd_lt⟩ := gcd_bounds valid
  have whole := Nat.gcd_dvd_right d.wordSize (2 ^ 32)
  have multiple := Nat.dvd_trans (Nat.gcd_dvd_left d.wordSize (2 ^ 32)) valid.aligned
  have room := start_add_gcd_le valid
  have start_lt := valid.start_lt
  -- An offset that is behind the end is enough.
  have of_offset (o : Nat) (inside : o < 2 ^ 32) (behind : d.stop < (o + d.start) % 2 ^ 64)
      (same : o % Nat.gcd d.wordSize (2 ^ 32) = y % Nat.gcd d.wordSize (2 ^ 32)) :
      ∃ n, ¬ d.Goes y n := by
    obtain ⟨k, at_k⟩ := exists_word_at valid inside bound same
    refine ⟨k, fun goes => ?_⟩
    have := goes.2
    omega
  rcases ends with none | before | narrow | ⟨ends, top⟩
  · exact absurd none lines
  · have less := Nat.mod_lt y gcd_pos
    refine of_offset (y % Nat.gcd d.wordSize (2 ^ 32)) (by omega) (by omega) (Nat.mod_mod _ _)
  · obtain ⟨k, at_k⟩ := WhileLoop.exists_mul_mod_eq valid.wordSize_pos valid.wordSize_lt
      (show 2 ^ 32 - Nat.gcd d.wordSize (2 ^ 32) < 2 ^ 32 by omega)
      (Nat.dvd_sub whole (Nat.dvd_refl _))
    refine ⟨k, fun goes => ?_⟩
    have := goes.1
    rw [word, at_k] at this
    omega
  · have wholer : Nat.gcd d.wordSize (2 ^ 32) ∣ 2 ^ 64 := Nat.dvd_trans whole (by decide)
    have least : Nat.gcd d.wordSize (2 ^ 32) ∣ min (2 ^ 32) (2 ^ 64 - d.start) := by
      rcases Nat.le_total (2 ^ 32) (2 ^ 64 - d.start) with low | high
      · rwa [Nat.min_eq_left low]
      · rw [Nat.min_eq_right high]
        exact Nat.dvd_sub wholer multiple
    obtain ⟨o, below, near, same⟩ := exists_offset_below (by omega) least y
    exact of_offset o (by omega) (by omega) same

/-- The first line goes on for ever where the ends are not met. -/
theorem ends_of_exists_stop (valid : d.Valid) (stop_lt : d.stop < 2 ^ 64)
    (stops : ∃ n, ¬ d.Goes 0 n) : d.Ends := by
  obtain ⟨n, stops⟩ := stops
  obtain ⟨gcd_pos, gcd_lt⟩ := gcd_bounds valid
  have room := start_add_gcd_le valid
  have whole := Nat.gcd_dvd_right d.wordSize (2 ^ 32)
  have multiple := Nat.dvd_trans (Nat.gcd_dvd_left d.wordSize (2 ^ 32)) valid.aligned
  have wholer : Nat.gcd d.wordSize (2 ^ 32) ∣ 2 ^ 64 := Nat.dvd_trans whole (by decide)
  by_contra endless
  unfold Ends at endless
  push Not at endless
  obtain ⟨-, ordered, broad, far⟩ := endless
  have at_n : Nat.gcd d.wordSize (2 ^ 32) ∣ d.word n := WhileLoop.gcd_dvd_mul_mod _ _ n
  have small : d.word n < 2 ^ 32 := Nat.mod_lt _ (by decide)
  have step := Nat.le_of_dvd (by omega) (Nat.dvd_sub whole at_n)
  refine stops ⟨by omega, ?_⟩
  unfold place
  rw [Nat.add_zero, Nat.mod_eq_of_lt small]
  by_cases low : d.word n + d.start < 2 ^ 64
  · have := Nat.le_of_dvd (by omega) (Nat.dvd_sub wholer (Nat.dvd_add at_n multiple))
    omega
  · have := valid.start_lt
    omega

theorem all_safe_iff_ends (valid : d.Valid) (stop_lt : d.stop < 2 ^ 64) (roomy : d.Roomy) :
    (∀ line < d.lines, d.LineSafe (d.lineOffset line)) ↔ d.Ends := by
  constructor
  · intro safe
    by_cases lines : d.lines = 0
    · exact Or.inl lines
    · refine ends_of_exists_stop valid stop_lt ?_
      have first := (safe 0 (by omega)).1
      rwa [lineOffset, Nat.mul_zero, Nat.zero_mod] at first
  · intro ends line inside
    exact ⟨exists_stop_of_ends valid ends (by omega) (Nat.mod_lt _ (by decide)),
      fun k _ => wordInside_of_roomy valid roomy k⟩

/-! ### Where they are not -/

/-- What holds of the lines then, unless the first one reads outside already. -/
structure Cramped (d : Loops) : Prop where
  narrow : d.wordSize ≤ 2 ^ 31
  tight : d.memSize < d.start + 2 ^ 32
  ordered : d.start ≤ d.stop → d.start < d.memSize

/-- Offsets from that of a line on lie one behind the other. -/
theorem place_add (valid : d.Valid) (cramped : d.Cramped) (bound : y < 2 ^ 32)
    (starts : d.place y ≤ d.stop) {o : Nat} (below : y + o < 2 ^ 32) :
    d.place (y + o) = d.place y + o := by
  have := cramped.ordered
  have := valid.memSize_lt
  have := valid.start_lt
  unfold place at starts ⊢
  omega

/-- The words up to the last one. -/
theorem word_of_le_last (valid : d.Valid) (bound : y < 2 ^ 32) {k : Nat}
    (le : k * d.wordSize ≤ d.last y) :
    d.word k = k * d.wordSize ∧ k * d.wordSize < d.bytesPerLine ∧ y + k * d.wordSize < 2 ^ 32 ∧
      k * d.wordSize ≤ d.stop - d.place y := by
  have most := Nat.mul_div_le
    (min (d.bytesPerLine - 1) (min (d.stop - d.place y) (2 ^ 32 - 1 - y))) d.wordSize
  have := valid.bytes_pos
  unfold last count at le
  have within : k * d.wordSize < 2 ^ 32 := by omega
  refine ⟨Nat.mod_eq_of_lt within, by omega, by omega, by omega⟩

theorem goes_of_le_last (valid : d.Valid) (cramped : d.Cramped) (bound : y < 2 ^ 32)
    (starts : d.place y ≤ d.stop) {k : Nat} (le : k * d.wordSize ≤ d.last y) : d.Goes y k := by
  obtain ⟨word, inLine, below, inStop⟩ := word_of_le_last valid bound le
  refine ⟨by omega, ?_⟩
  rw [word, Nat.add_comm, place_add valid cramped bound starts below]
  omega

theorem last_eq (d : Loops) (y : Nat) : d.count y * d.wordSize = d.last y :=
  Nat.mul_comm _ _

/-- Behind it the line, the range or the 2^32 bytes are used up. -/
theorem behind_last (valid : d.Valid) (y : Nat) :
    d.bytesPerLine ≤ d.last y + d.wordSize ∨ d.stop - d.place y < d.last y + d.wordSize ∨
      2 ^ 32 ≤ y + d.last y + d.wordSize := by
  have less := Nat.lt_mul_div_succ
    (min (d.bytesPerLine - 1) (min (d.stop - d.place y) (2 ^ 32 - 1 - y))) valid.wordSize_pos
  have next : d.wordSize *
      (min (d.bytesPerLine - 1) (min (d.stop - d.place y) (2 ^ 32 - 1 - y)) / d.wordSize + 1) =
        d.last y + d.wordSize := rfl
  omega

theorem fits_of_wordInside (valid : d.Valid) (cramped : d.Cramped) (bound : y < 2 ^ 32)
    (starts : d.place y ≤ d.stop) (inside : d.WordInside y (d.count y)) :
    d.place y + d.last y + d.wordSize ≤ d.memSize ∧ y + d.last y + d.wordSize ≤ 2 ^ 32 := by
  have pos := valid.wordSize_pos
  have le : d.count y * d.wordSize ≤ d.last y := Nat.le_of_eq (last_eq d y)
  obtain ⟨word, -, below, -⟩ := word_of_le_last valid bound le
  rw [last_eq] at word below
  have bytes := inside cramped.narrow
  rw [word] at bytes
  have low : y + d.last y + d.wordSize ≤ 2 ^ 32 := by
    by_contra crosses
    -- The word has a byte at offset 2^32 - 1 and one at offset 0.
    have top := bytes (2 ^ 32 - 1 - (y + d.last y)) (by omega)
    have zero := bytes (2 ^ 32 - (y + d.last y)) (by omega)
    have := cramped.tight
    have := cramped.ordered
    have := valid.memSize_lt
    have := valid.start_lt
    unfold place at starts top zero
    omega
  have final := bytes (d.wordSize - 1) (by omega)
  rw [show d.last y + y + (d.wordSize - 1) = y + (d.last y + d.wordSize - 1) by omega,
    place_add valid cramped bound starts (by omega)] at final
  omega

theorem lineSafe_of_fits (valid : d.Valid) (cramped : d.Cramped) (bound : y < 2 ^ 32)
    (fits : d.LineFits y) : d.LineSafe y := by
  have pos := valid.wordSize_pos
  by_cases starts : d.place y ≤ d.stop
  · obtain ⟨room, low⟩ := fits starts
    -- The next word is not there.
    have stop : ¬ d.Goes y (d.count y + 1) := by
      rintro ⟨inLine, inRange⟩
      have := cramped.tight
      have := cramped.ordered
      have := valid.memSize_lt
      have := valid.start_lt
      have at_next : (d.count y + 1) * d.wordSize = d.last y + d.wordSize := by
        rw [Nat.add_one_mul, last_eq]
      have behind := behind_last valid y
      have := valid.bytes_lt
      unfold word at inLine inRange
      rw [at_next] at inLine inRange
      unfold place at starts room behind inRange
      omega
    refine ⟨⟨_, stop⟩, ?_⟩
    intro k goesOn narrow j inWord
    have le : k * d.wordSize ≤ d.last y := by
      by_contra more
      rw [← last_eq] at more
      have : d.count y < k := by
        by_contra few
        exact more (Nat.mul_le_mul_right _ (Nat.le_of_not_lt few))
      exact stop (goesOn _ this)
    obtain ⟨word, -, below, -⟩ := word_of_le_last valid bound le
    rw [word, show k * d.wordSize + y + j = y + (k * d.wordSize + j) by omega,
      place_add valid cramped bound starts (by omega)]
    omega
  · have stop : ¬ d.Goes y 0 := by
      rintro ⟨-, inRange⟩
      rw [word, Nat.zero_mul, Nat.zero_mod, Nat.zero_add] at inRange
      exact starts inRange
    exact ⟨⟨0, stop⟩, fun k goesOn => absurd (goesOn 0 (Nat.zero_le k)) stop⟩

theorem all_safe_iff_fits (valid : d.Valid) (narrow : d.wordSize ≤ 2 ^ 31)
    (tight : d.memSize < d.start + 2 ^ 32) :
    (∀ line < d.lines, d.LineSafe (d.lineOffset line)) ↔
      ∀ line < d.lines, d.LineFits (d.lineOffset line) := by
  have start : d.place 0 = d.start := by
    rw [place, Nat.zero_mod, Nat.zero_add, Nat.mod_eq_of_lt valid.start_lt]
  have zero : d.lineOffset 0 = 0 := by rw [lineOffset, Nat.mul_zero, Nat.zero_mod]
  have bound (line : Nat) : d.lineOffset line < 2 ^ 32 := Nat.mod_lt _ (by decide)
  constructor
  · intro safe line inside starts
    have cramped : d.Cramped := by
      refine ⟨narrow, tight, fun ordered => ?_⟩
      have goes : d.Goes 0 0 :=
        ⟨by rw [word, Nat.zero_mul]; exact valid.bytes_pos, by
          rw [word, Nat.zero_mul]; exact start.trans_le ordered⟩
      have first := (safe 0 (by omega)).2 0
      rw [zero] at first
      have byte := first (fun i le => Nat.le_zero.mp le ▸ goes) narrow 0 valid.wordSize_pos
      rwa [word, Nat.zero_mul, Nat.add_zero, Nat.zero_mod, start] at byte
    refine fits_of_wordInside valid cramped (bound line) starts ((safe line inside).2 _ ?_)
    intro i le
    refine goes_of_le_last valid cramped (bound line) starts ?_
    rw [← last_eq]
    exact Nat.mul_le_mul_right _ le
  · intro fits line inside
    refine lineSafe_of_fits valid ⟨narrow, tight, fun ordered => ?_⟩ (bound line) (fits line inside)
    have first := fits 0 (by omega)
    rw [zero] at first
    have := (first (by omega)).1
    have := valid.wordSize_pos
    omega

end Loops

/-! ## The loops of the code -/

section Code

variable {memSize : Int64} {start stop : UInt64} {wordSize bytesPerLine : UInt32}

/-- `word_size - 1` is negative as an int32_t from 2^31 + 1 on. -/
theorem wordOffsets_count (nonzero : wordSize ≠ 0) :
    ((wordSize - 1).toInt32.toInt + 1).toNat =
      if wordSize.toNat ≤ 2 ^ 31 then wordSize.toNat else 0 := by
  have pos : wordSize.toNat ≠ 0 := fun zero => nonzero (UInt32.toNat_inj.mp zero)
  have below := wordSize.toNat_lt
  have less : (wordSize - 1).toNat = wordSize.toNat - 1 :=
    UInt32.toNat_sub_of_le _ _ (UInt32.le_iff_toNat_le.mpr (Nat.one_le_iff_ne_zero.mpr pos))
  have signed : (wordSize - 1).toInt32.toInt =
      if 2 * (wordSize - 1).toNat < 2 ^ 32 then ((wordSize - 1).toNat : Int)
      else (wordSize - 1).toNat - 2 ^ 32 :=
    BitVec.toInt_eq_toNat_cond _
  rw [signed, less]
  split <;> split <;> omega

theorem mem_readWord (nonzero : wordSize ≠ 0) {offset : UInt32} {r : UInt64} :
    r ∈ readWord start wordSize offset ↔ wordSize.toNat ≤ 2 ^ 31 ∧
      ∃ j < wordSize.toNat, r = start + (offset + UInt32.ofNat j).toUInt64 := by
  simp only [readWord, wordOffsets, wordOffsets_count nonzero, List.mem_map, List.mem_reverse,
    List.mem_range]
  constructor
  · rintro ⟨_, ⟨j, inside, rfl⟩, rfl⟩
    split at inside
    · exact ⟨‹_›, j, inside, rfl⟩
    · exact absurd inside (Nat.not_lt_zero j)
  · rintro ⟨narrow, j, inside, rfl⟩
    exact ⟨_, ⟨j, by rwa [if_pos narrow], rfl⟩, rfl⟩

/-- The loops of a dump from `start` to `stop`, which are aligned. -/
def loops (memSize : Int64) (start stop : UInt64) (wordSize bytesPerLine : UInt32) : Loops where
  memSize := memSize.toInt.toNat
  start := start.toNat
  stop := stop.toNat
  wordSize := wordSize.toNat
  bytesPerLine := bytesPerLine.toNat
  lines := (nbLines start stop bytesPerLine).toNat

theorem toNat_read (start : UInt64) (offset : UInt32) (j : Nat) :
    (start + (offset + UInt32.ofNat j).toUInt64).toNat =
      ((offset.toNat + j) % 2 ^ 32 + start.toNat) % 2 ^ 64 := by
  rw [UInt64.toNat_add, UInt32.toNat_toUInt64, UInt32.toNat_add, UInt32.toNat_ofNat',
    Nat.add_mod_mod, Nat.add_comm]

theorem follows_wordStep (memSize : Int64) (start stop : UInt64)
    (wordSize bytesPerLine line : UInt32) :
    WhileLoop.Follows (wordStep start stop wordSize bytesPerLine line)
      (fun k => UInt32.ofNat (k * wordSize.toNat))
      (fun k => readWord start wordSize
        (UInt32.ofNat (k * wordSize.toNat) + bytesPerLine * line))
      ((loops memSize start stop wordSize bytesPerLine).Goes (bytesPerLine * line).toNat) := by
  have goes_iff (k : Nat) :
      (loops memSize start stop wordSize bytesPerLine).Goes (bytesPerLine * line).toNat k ↔
        UInt32.ofNat (k * wordSize.toNat) < bytesPerLine ∧
          ¬ stop < (UInt32.ofNat (k * wordSize.toNat) + bytesPerLine * line).toUInt64 + start := by
    rw [UInt32.lt_iff_toNat_lt, UInt64.lt_iff_toNat_lt, UInt64.toNat_add, UInt32.toNat_toUInt64,
      UInt32.toNat_add, UInt32.toNat_ofNat', Nat.not_lt]
    rfl
  refine ⟨fun k goes => ?_, fun k leaves => ?_⟩
  · obtain ⟨inLine, inRange⟩ := (goes_iff k).mp goes
    simp only [wordStep, if_pos inLine, if_neg inRange, Nat.add_one_mul, UInt32.ofNat_add,
      UInt32.ofNat_toNat]
  · rw [goes_iff, not_and_not_right] at leaves
    simp only [wordStep]
    split
    · next inLine => exact if_pos (leaves inLine)
    · rfl

theorem line_safe_iff (memSize : Int64) (start stop : UInt64) {wordSize : UInt32}
    (nonzero : wordSize ≠ 0) (bytesPerLine line : UInt32) :
    (∃ fuel reads,
        WhileLoop.collect (wordStep start stop wordSize bytesPerLine line) fuel 0 = some reads ∧
          ∀ r ∈ reads, (r.toNat : Int) < memSize.toInt) ↔
      (loops memSize start stop wordSize bytesPerLine).LineSafe
        (bytesPerLine * line).toNat := by
  have follows := follows_wordStep memSize start stop wordSize bytesPerLine line
  have first : UInt32.ofNat (0 * wordSize.toNat) = 0 := by rw [Nat.zero_mul]; rfl
  have loop := follows.collect_iff (P := fun r => (r.toNat : Int) < memSize.toInt)
  simp only [first] at loop
  rw [loop]
  refine and_congr Iff.rfl (forall_congr' fun k => forall_congr' fun _ => ?_)
  have place (j : Nat) :
      (loops memSize start stop wordSize bytesPerLine).place
          ((loops memSize start stop wordSize bytesPerLine).word k +
            (bytesPerLine * line).toNat + j) =
        (start + (UInt32.ofNat (k * wordSize.toNat) + bytesPerLine * line +
          UInt32.ofNat j).toUInt64).toNat := by
    rw [toNat_read, UInt32.toNat_add, UInt32.toNat_ofNat', Nat.mod_add_mod]
    rfl
  constructor
  · intro all narrow j inside
    have read := all _ ((mem_readWord nonzero).mpr ⟨narrow, j, inside, rfl⟩)
    rw [place]
    exact (Int.lt_toNat).mpr read
  · rintro all r member
    obtain ⟨narrow, j, inside, rfl⟩ := (mem_readWord nonzero).mp member
    have byte := all narrow j inside
    rw [place] at byte
    exact Int.lt_toNat.mp byte

section Lines

variable {step : UInt32 → UInt32 → Option (List UInt64 × UInt32)}

theorem dumpLines_mono {fuel more lines : Nat} {line : UInt32} {reads : List UInt64}
    (le : fuel ≤ more)
    (ends : dumpLines (fun line => WhileLoop.collect (step line) fuel 0) lines line = some reads) :
    dumpLines (fun line => WhileLoop.collect (step line) more 0) lines line = some reads := by
  induction lines generalizing line reads with
  | zero => exact ends
  | succ lines ih =>
    simp only [dumpLines] at ends ⊢
    split at ends
    · cases ends
    · next now first =>
      obtain ⟨later, rest, rfl⟩ := Option.map_eq_some_iff.mp ends
      rw [WhileLoop.collect_mono le first]
      simp only [ih rest, Option.map_some]

/-- The lines end with good reads when each of them does. -/
theorem dumpLines_iff {P : UInt64 → Prop} (lines : Nat) (line : UInt32) :
    (∃ fuel reads, dumpLines (fun line => WhileLoop.collect (step line) fuel 0) lines line =
        some reads ∧ ∀ r ∈ reads, P r) ↔
      ∀ i < lines, ∃ fuel reads,
        WhileLoop.collect (step (line + UInt32.ofNat i)) fuel 0 = some reads ∧
          ∀ r ∈ reads, P r := by
  induction lines generalizing line with
  | zero =>
    exact ⟨fun _ i inside => absurd inside (Nat.not_lt_zero i), fun _ => ⟨0, [], rfl, by simp⟩⟩
  | succ lines ih =>
    have next (i : Nat) : line + UInt32.ofNat (i + 1) = line + 1 + UInt32.ofNat i := by
      rw [Nat.add_comm, UInt32.ofNat_add, ← UInt32.add_assoc]
      rfl
    constructor
    · rintro ⟨fuel, reads, ends, all⟩ i inside
      simp only [dumpLines] at ends
      split at ends
      · cases ends
      · next now first =>
        obtain ⟨later, rest, rfl⟩ := Option.map_eq_some_iff.mp ends
        cases i with
        | zero =>
          rw [show line + UInt32.ofNat 0 = line from UInt32.add_zero line]
          exact ⟨fuel, now, first, fun r member => all r (List.mem_append_left _ member)⟩
        | succ i =>
          rw [next]
          exact (ih (line + 1)).mp ⟨fuel, later, rest, fun r member =>
            all r (List.mem_append_right _ member)⟩ i (by omega)
    · intro each
      obtain ⟨fuel, now, first, good⟩ := each 0 (Nat.succ_pos lines)
      rw [show line + UInt32.ofNat 0 = line from UInt32.add_zero line] at first
      obtain ⟨fuel', later, rest, good'⟩ := (ih (line + 1)).mpr fun i inside => by
        rw [← next]
        exact each (i + 1) (by omega)
      refine ⟨max fuel fuel', now ++ later, ?_, ?_⟩
      · simp only [dumpLines, WhileLoop.collect_mono (Nat.le_max_left fuel fuel') first,
          dumpLines_mono (Nat.le_max_right fuel fuel') rest, Option.map_some]
      · intro r member
        rcases List.mem_append.mp member with here | behind
        · exact good r here
        · exact good' r behind

end Lines

end Code

/-! ## The command -/

/-- A DUMP_MEM command on a paused VM, whose client can be written to, comes to an end, and every byte
it has read is one of guest memory. -/
def DumpsSafely (memSize : Int64) (cmd : MiniKvmStatusCommand) : Prop :=
  ∃ fuel reads, statusHandleDumpMem fuel .paused memSize true cmd = (.success, .done reads) ∧
    ∀ r ∈ reads, (r.toNat : Int) < memSize.toInt

def loopsOf (memSize : Int64) (cmd : MiniKvmStatusCommand) : Loops :=
  loops memSize (alignStart (rangeStart cmd) (rangeWordSize cmd))
    (alignEnd memSize (rangeEnd memSize cmd) (rangeWordSize cmd))
    (rangeWordSize cmd) (rangeBytesPerLine cmd)

/-- The sizes are not zero as uint32_t, and the lines fit; or there is room for 2^32 bytes, or nothing
to read, and the counters come to an end. -/
structure Harmless (memSize : Int64) (cmd : MiniKvmStatusCommand) : Prop where
  words : rangeWordSize cmd ≠ 0
  bytes : rangeBytesPerLine cmd ≠ 0
  fits : ¬ (loopsOf memSize cmd).Roomy → ∀ line < (loopsOf memSize cmd).lines,
    (loopsOf memSize cmd).LineFits ((loopsOf memSize cmd).lineOffset line)
  ends : (loopsOf memSize cmd).Roomy → (loopsOf memSize cmd).Ends

theorem valid_loopsOf (memSize : Int64) {cmd : MiniKvmStatusCommand}
    (words : rangeWordSize cmd ≠ 0) (bytes : rangeBytesPerLine cmd ≠ 0) :
    (loopsOf memSize cmd).Valid where
  wordSize_pos := Nat.pos_of_ne_zero fun zero => words (UInt32.toNat_inj.mp zero)
  wordSize_lt := (rangeWordSize cmd).toNat_lt
  bytes_pos := Nat.pos_of_ne_zero fun zero => bytes (UInt32.toNat_inj.mp zero)
  bytes_lt := (rangeBytesPerLine cmd).toNat_lt
  aligned := by
    change (rangeWordSize cmd).toNat ∣ (alignStart (rangeStart cmd) (rangeWordSize cmd)).toNat
    rw [alignStart_toNat]
    exact Nat.dvd_sub_mod _
  start_lt := UInt64.toNat_lt _
  memSize_lt := by
    have := memSize.toInt_lt
    change memSize.toInt.toNat < _
    omega

theorem statusHandleDumpMem_done {fuel : Nat} {memSize : Int64} {cmd : MiniKvmStatusCommand}
    (words : rangeWordSize cmd ≠ 0) (bytes : rangeBytesPerLine cmd ≠ 0) {reads : List UInt64} :
    statusHandleDumpMem fuel .paused memSize true cmd = (.success, .done reads) ↔
      dumpLines (fun line => WhileLoop.collect
          (wordStep (alignStart (rangeStart cmd) (rangeWordSize cmd))
            (alignEnd memSize (rangeEnd memSize cmd) (rangeWordSize cmd))
            (rangeWordSize cmd) (rangeBytesPerLine cmd) line) fuel 0)
        (loopsOf memSize cmd).lines 0 = some reads := by
  simp only [statusHandleDumpMem, miniKvmDumpMem, if_neg words, if_neg bytes, ne_eq,
    not_true_eq_false, if_false, if_true, Prod.mk.injEq, true_and, loopsOf, loops]
  generalize dumpLines _ _ _ = result
  cases result <;> simp

theorem dumpsSafely_iff_lines (memSize : Int64) {cmd : MiniKvmStatusCommand}
    (words : rangeWordSize cmd ≠ 0) (bytes : rangeBytesPerLine cmd ≠ 0) :
    DumpsSafely memSize cmd ↔ ∀ line < (loopsOf memSize cmd).lines,
      (loopsOf memSize cmd).LineSafe ((loopsOf memSize cmd).lineOffset line) := by
  simp only [DumpsSafely, statusHandleDumpMem_done words bytes]
  rw [dumpLines_iff]
  refine forall_congr' fun line => forall_congr' fun _ => ?_
  have offset : (rangeBytesPerLine cmd * (0 + UInt32.ofNat line)).toNat =
      (loopsOf memSize cmd).lineOffset line := by
    rw [UInt32.zero_add, UInt32.toNat_mul, UInt32.toNat_ofNat', Nat.mul_mod_mod]
    rfl
  rw [line_safe_iff memSize _ _ words, offset]
  rfl

theorem safe_iff_harmless (memSize : Int64) (cmd : MiniKvmStatusCommand) :
    DumpsSafely memSize cmd ↔ Harmless memSize cmd := by
  by_cases words : rangeWordSize cmd = 0
  · constructor
    · rintro ⟨fuel, reads, dumped, -⟩
      simp [statusHandleDumpMem, miniKvmDumpMem, words] at dumped
    · exact fun harmless => absurd words harmless.words
  by_cases bytes : rangeBytesPerLine cmd = 0
  · constructor
    · rintro ⟨fuel, reads, dumped, -⟩
      simp [statusHandleDumpMem, miniKvmDumpMem, words, bytes] at dumped
    · exact fun harmless => absurd bytes harmless.bytes
  have valid := valid_loopsOf memSize words bytes
  have stop_lt : (loopsOf memSize cmd).stop < 2 ^ 64 := UInt64.toNat_lt _
  rw [dumpsSafely_iff_lines memSize words bytes]
  by_cases roomy : (loopsOf memSize cmd).Roomy
  · rw [Loops.all_safe_iff_ends valid stop_lt roomy]
    exact ⟨fun ends => ⟨words, bytes, absurd roomy, fun _ => ends⟩,
      fun harmless => harmless.ends roomy⟩
  · rw [Loops.all_safe_iff_fits valid (Nat.le_of_not_lt fun wide => roomy (Or.inl wide))
      (Nat.lt_of_not_le fun room => roomy (Or.inr room))]
    exact ⟨fun fits => ⟨words, bytes, fun _ => fits, fun room => absurd room roomy⟩,
      fun harmless => harmless.fits roomy⟩

/-- A dump is safe exactly when its request is harmless, for any size of guest memory. -/
theorem dumpsSafely_iff_harmless (memSize : Int64) (cmd : MiniKvmStatusCommand) :
    DumpsSafely memSize cmd ↔ Harmless memSize cmd := safe_iff_harmless memSize cmd

def dumpCommand (range : Vector Int64 4) : MiniKvmStatusCommand :=
  { type := .dumpMem, memRange := range }

/-- In the least memory that is accepted, words of no size divide by zero, and lines of two words of
16 bytes from the last word on read the 16 bytes behind guest memory. -/
theorem least_not_dumpsSafely :
    ¬ DumpsSafely Boot.minimumMemoryRequired (dumpCommand ⟨#[0, -1, 0, 16], rfl⟩) ∧
      ∃ reads, statusHandleDumpMem 3 .paused Boot.minimumMemoryRequired true
          (dumpCommand ⟨#[0x4ff8, -1, 16, 32], rfl⟩) = (.success, .done reads) ∧
        0x5000 ∈ reads := by
  constructor
  · rintro ⟨fuel, reads, dumped, -⟩
    have divides : statusHandleDumpMem fuel .paused Boot.minimumMemoryRequired true
        (dumpCommand ⟨#[0, -1, 0, 16], rfl⟩) = (.success, .divides) := rfl
    rw [divides] at dumped
    cases dumped
  · exact ⟨_, rfl, by decide⟩

end MiniKvm.Guarantees.MemoryDump
