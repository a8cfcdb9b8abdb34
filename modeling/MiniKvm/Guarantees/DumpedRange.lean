import MiniKvm.Guarantees.DumpCounters
import MiniKvm.Source.DumpText

/-!
# What does a dump show?

The text of mini_kvm_dump_mem in a guest below 2 GiB, for words that divide the lines and the memory.
The loop on `word` is left where a word starts behind the end, and not where it starts at the end. So a
line that is not whole has one word too many, and the dump is right when all lines are whole.
-/
namespace MiniKvm.Guarantees.DumpedRange
open Lib Source Source.DumpMem Source.DumpText DumpCounters

/-! ## Words and lines -/

section Words

variable {α : Type*}

/-- Lines of `m` words each are their words in a row. -/
theorem flatMap_range_mul (n m : Nat) (f : Nat → α) :
    ((List.range n).flatMap fun i => (List.range m).map fun k => f (i * m + k)) =
      (List.range (n * m)).map f := by
  induction n with
  | zero => simp
  | succ n ih =>
    rw [List.range_succ, List.flatMap_append, ih, Nat.add_one_mul, List.range_add, List.map_append,
      List.map_map]
    simp [Function.comp_def]

/-- A range of words is that of another number of words only if it is the same number. -/
theorem map_range_inj {n m : Nat} (f : Nat → α) :
    (List.range n).map f = (List.range m).map f ↔ n = m := by
  constructor
  · intro same
    simpa using congrArg List.length same
  · rintro rfl
    rfl

end Words

/-- The bytes of the word at this place, from the last to the first. -/
def wordAt (memory : Nat → UInt8) (wordSize place : Nat) : List UInt8 :=
  (List.range wordSize).reverse.map fun j => memory (place + j)

/-- The text has the lines that start below the end, and the words of the range from `start` to
`stop`. -/
structure Shows (memory : Nat → UInt8) (start stop wordSize bytesPerLine : Nat) (text : Text) :
    Prop where
  labels : ∀ i, (text.lines[i]?.map fun line => line.label.toNat) =
    if start + i * bytesPerLine < stop then some (start + i * bytesPerLine) else none
  words : text.lines.flatMap Line.words =
    (List.range ((stop - start) / wordSize)).map fun k =>
      wordAt memory wordSize (start + k * wordSize)

/-- mini_kvm_dump_mem comes to an end and shows the range from `start`, rounded down to words, to `stop`,
rounded up. -/
def ShowsRange (memory : Nat → UInt8) (memSize : Int64) (start stop : UInt64)
    (wordSize bytesPerLine : UInt32) : Prop :=
  ∃ fuel text, DumpText.miniKvmDumpMem fuel memory memSize start stop wordSize bytesPerLine = some text ∧
    Shows memory (start.toNat - start.toNat % wordSize.toNat) (roundUp stop.toNat wordSize.toNat)
      wordSize.toNat bytesPerLine.toNat text

/-! ## The loops -/

section Loops

variable {memory : Nat → UInt8} {start stop : UInt64} {wordSize bytesPerLine : UInt32}

theorem printLines_mono {print print' : UInt32 → Option Line} {lines : Nat} {line : UInt32}
    {texts : List Line} (more : ∀ line text, print line = some text → print' line = some text)
    (ends : printLines print lines line = some texts) :
    printLines print' lines line = some texts := by
  induction lines generalizing line texts with
  | zero => exact ends
  | succ lines ih =>
    simp only [printLines] at ends ⊢
    split at ends
    · cases ends
    · next text here =>
      obtain ⟨later, rest, rfl⟩ := Option.map_eq_some_iff.mp ends
      simp only [more line text here, ih rest, Option.map_some]

theorem printLines_eq {print : UInt32 → Option Line} {lines : Nat} {line : UInt32}
    {text : Nat → Line} (each : ∀ i < lines, print (line + UInt32.ofNat i) = some (text i)) :
    printLines print lines line = some ((List.range lines).map text) := by
  induction lines generalizing line text with
  | zero => rfl
  | succ lines ih =>
    have first := each 0 (Nat.succ_pos lines)
    rw [show line + UInt32.ofNat 0 = line from UInt32.add_zero line] at first
    have rest : printLines print lines (line + 1) =
        some ((List.range lines).map fun i => text (i + 1)) := by
      refine ih fun i inside => ?_
      have next := each (i + 1) (by omega)
      rwa [Nat.add_comm i 1, UInt32.ofNat_add, ← UInt32.add_assoc, Nat.add_comm 1 i] at next
    simp only [printLines, first, rest, Option.map_some, List.range_succ_eq_map, List.map_cons,
      List.map_map]
    rfl

theorem printLine_mono {fuel more : Nat} (le : fuel ≤ more) {line : UInt32} {text : Line}
    (ends : printLine fuel memory start stop wordSize bytesPerLine line = some text) :
    printLine more memory start stop wordSize bytesPerLine line = some text := by
  obtain ⟨words, loop, rfl⟩ := Option.map_eq_some_iff.mp ends
  rw [printLine, WhileLoop.collect_mono le loop]
  rfl

theorem miniKvmDumpMem_mono {fuel more : Nat} (le : fuel ≤ more) {memSize : Int64} {text : Text}
    (ends : DumpText.miniKvmDumpMem fuel memory memSize start stop wordSize bytesPerLine =
      some text) :
    DumpText.miniKvmDumpMem more memory memSize start stop wordSize bytesPerLine = some text := by
  unfold DumpText.miniKvmDumpMem at ends ⊢
  split at ends
  · cases ends
  · next sizes =>
    obtain ⟨texts, loop, rfl⟩ := Option.map_eq_some_iff.mp ends
    rw [if_neg sizes]
    exact congrArg (Option.map _) (printLines_mono (fun _ _ => printLine_mono le) loop)

end Loops

/-! ## Lines of whole words -/

/-- A range of `q` words, in lines of `m` words, in a guest below 2 GiB. -/
structure Even (r : Request) (m q : Nat) : Prop extends r.Ordered where
  pos : 0 < r.wordSize.toNat
  perLine : r.bytesPerLine.toNat = m * r.wordSize.toNat
  bytes : r.bytes = q * r.wordSize.toNat
  small : r.stop.toNat < 2 ^ 31
  m_pos : 0 < m

/-- So many words are printed in a line: one more than there are, where the line is not whole. -/
def count (m q line : Nat) : Nat := min m (q - m * line + 1)

/-- The text of a line. -/
def textOf (r : Request) (memory : Nat → UInt8) (m q line : Nat) : Line where
  label := r.label (.ofNat line)
  words := (List.range (count m q line)).map fun k =>
    wordAt memory r.wordSize.toNat (r.start.toNat + (line * m + k) * r.wordSize.toNat)

namespace Even

variable {r : Request} {m q line k : Nat}

theorem words_pos (even : Even r m q) : 0 < q := by
  have := even.ordered
  have range := even.bytes
  rw [Request.bytes] at range
  by_contra none
  rw [Nat.eq_zero_of_not_pos none, Nat.zero_mul] at range
  omega

theorem bounds (even : Even r m q) :
    r.wordSize.toNat ≤ q * r.wordSize.toNat ∧ q * r.wordSize.toNat < 2 ^ 31 := by
  have range := even.bytes
  have := even.small
  rw [Request.bytes] at range
  exact ⟨Nat.le_mul_of_pos_left _ even.words_pos, by omega⟩

theorem perLine_pos (even : Even r m q) : 0 < r.bytesPerLine.toNat := by
  rw [even.perLine]
  exact Nat.mul_pos even.m_pos even.pos

/-- A line of the range starts with one of its words. -/
theorem line_lt (even : Even r m q) (inside : line < lines r.bytes r.bytesPerLine.toNat) :
    m * line < q := by
  obtain ⟨p, lines_eq, before, -⟩ :=
    exists_lines (Request.bytes_pos even.toOrdered) even.perLine_pos
  rw [even.perLine, even.bytes, Nat.mul_right_comm] at before
  have le : m * line ≤ m * p := Nat.mul_le_mul_left m (by omega)
  exact Nat.lt_of_le_of_lt le (Nat.lt_of_mul_lt_mul_right before)

theorem product_eq (even : Even r m q) (inside : line < lines r.bytes r.bytesPerLine.toNat) :
    r.product line = m * line * r.wordSize.toNat := by
  have less := (Nat.mul_lt_mul_right even.pos).mpr (even.line_lt inside)
  have := even.bounds
  rw [Request.product_eq, even.perLine, Nat.mul_right_comm, Nat.mod_eq_of_lt (by omega)]

/-- The loop on `word` is left behind that many words. -/
theorem goes_iff (even : Even r m q) (inside : line < lines r.bytes r.bytesPerLine.toNat)
    (le : k ≤ count m q line) :
    r.loops.Goes (r.product line) k ↔ k < count m q line := by
  have less := even.line_lt inside
  have := even.bounds
  have far : (k + m * line) * r.wordSize.toNat ≤ (q + 1) * r.wordSize.toNat := by
    refine Nat.mul_le_mul_right _ ?_
    unfold count at le
    omega
  rw [Nat.add_mul, Nat.add_one_mul] at far
  have word : r.loops.word k = k * r.wordSize.toNat :=
    Nat.mod_eq_of_lt (show k * r.wordSize.toNat < 2 ^ 32 by omega)
  rw [Request.goes_iff even.toOrdered word (by rw [even.product_eq inside]; omega),
    even.product_eq inside, even.perLine, even.bytes, ← Nat.add_mul, Nat.mul_lt_mul_right even.pos,
    Nat.mul_le_mul_right_iff even.pos, count]
  omega

/-- Word `k` of a line is printed from its place. -/
theorem print_word (even : Even r m q) (memory : Nat → UInt8)
    (inside : line < lines r.bytes r.bytesPerLine.toNat) (less : k < count m q line) :
    ((readWord r.start r.wordSize (UInt32.ofNat (k * r.wordSize.toNat) +
        r.bytesPerLine * UInt32.ofNat line)).map fun place => memory place.toNat) =
      wordAt memory r.wordSize.toNat (r.start.toNat + (line * m + k) * r.wordSize.toNat) := by
  have here := (even.goes_iff inside less.le).mpr less
  have lineLess := even.line_lt inside
  have small := even.bounds
  have := even.ordered
  have := even.small
  have near : (line * m + k) * r.wordSize.toNat ≤ q * r.wordSize.toNat := by
    refine Nat.mul_le_mul_right _ ?_
    rw [Nat.mul_comm line]
    unfold count at less
    omega
  have offset : (UInt32.ofNat (k * r.wordSize.toNat) + r.bytesPerLine * UInt32.ofNat line).toNat =
      (line * m + k) * r.wordSize.toNat := by
    rw [UInt32.toNat_add, UInt32.toNat_ofNat', ← Request.product, even.product_eq inside,
      Nat.mod_add_mod, ← Nat.add_mul, Nat.mul_comm m, Nat.add_comm k, Nat.mod_eq_of_lt (by omega)]
  have mapped := congrArg (List.map memory) (Request.map_readWord even.pos (by omega)
    (UInt32.ofNat (k * r.wordSize.toNat) + r.bytesPerLine * UInt32.ofNat line))
  rw [List.map_map, List.map_map, offset] at mapped
  refine mapped.trans (List.map_congr_left fun j member => ?_)
  rw [List.mem_reverse, List.mem_range] at member
  rw [Function.comp, Nat.mod_eq_of_lt (by omega), Nat.mod_eq_of_lt (by omega)]
  congr 1
  omega

theorem printLine_eq (even : Even r m q) (memory : Nat → UInt8)
    (inside : line < lines r.bytes r.bytesPerLine.toNat) {fuel : Nat} (enough : m < fuel) :
    printLine fuel memory r.start r.stop r.wordSize r.bytesPerLine (.ofNat line) =
      some (textOf r memory m q line) := by
  have follows := (MemoryDump.follows_wordStep 0 r.start r.stop r.wordSize r.bytesPerLine
    (.ofNat line)).map fun reads => [reads.map fun place => memory place.toNat]
  have few : count m q line ≤ m := Nat.min_le_left _ _
  have loop := follows.collect_eq (count m q line) fuel
    (fun i less => (even.goes_iff inside less.le).mpr less)
    (fun goes => absurd ((even.goes_iff inside (Nat.le_refl _)).mp goes) (Nat.lt_irrefl _))
    (by omega)
  rw [Nat.zero_mul, show UInt32.ofNat 0 = 0 from rfl] at loop
  rw [printLine, show WhileLoop.collect (printStep memory r.start r.stop r.wordSize r.bytesPerLine
    (.ofNat line)) fuel 0 = _ from loop, Option.map_some, ← List.map_eq_flatMap, textOf]
  congr 2
  exact List.map_congr_left fun k member =>
    even.print_word memory inside (List.mem_range.mp member)

theorem printed (even : Even r m q) (memory : Nat → UInt8) {fuel : Nat} (enough : m < fuel) :
    printLines (printLine fuel memory r.start r.stop r.wordSize r.bytesPerLine)
        (nbLines r.start r.stop r.bytesPerLine).toNat 0 =
      some ((List.range (lines r.bytes r.bytesPerLine.toNat)).map (textOf r memory m q)) := by
  have few : lines r.bytes r.bytesPerLine.toNat < 2 ^ 32 := by
    obtain ⟨p, lines_eq, -⟩ := exists_lines (Request.bytes_pos even.toOrdered) even.perLine_pos
    have last := even.line_lt (show p < _ by omega)
    have := Nat.le_mul_of_pos_left p even.m_pos
    have := Nat.le_mul_of_pos_right q even.pos
    have := even.bounds
    omega
  rw [Request.nbLines_toNat even.toOrdered, Nat.mod_eq_of_lt few]
  refine printLines_eq fun i inside => ?_
  rw [UInt32.zero_add]
  exact even.printLine_eq memory inside enough

/-- So many words are printed in all. -/
theorem words_eq (even : Even r m q) (memory : Nat → UInt8) {p : Nat}
    (lines_eq : lines r.bytes r.bytesPerLine.toNat = p + 1) :
    ((List.range (p + 1)).map (textOf r memory m q)).flatMap Line.words =
      (List.range (p * m + count m q p)).map fun k =>
        wordAt memory r.wordSize.toNat (r.start.toNat + k * r.wordSize.toNat) := by
  have last := even.line_lt (show p < _ by omega)
  have whole : (List.range p).flatMap (fun line => (textOf r memory m q line).words) =
      (List.range p).flatMap fun line => (List.range m).map fun k =>
        wordAt memory r.wordSize.toNat (r.start.toNat + (line * m + k) * r.wordSize.toNat) := by
    refine List.flatMap_congr fun line member => ?_
    have le := Nat.mul_le_mul_left m (Nat.succ_le_of_lt (List.mem_range.mp member))
    rw [Nat.mul_succ] at le
    rw [textOf, show count m q line = m from Nat.min_eq_left (by omega)]
  rw [List.flatMap_map, List.range_succ, List.flatMap_append, whole,
    flatMap_range_mul p m fun k =>
      wordAt memory r.wordSize.toNat (r.start.toNat + k * r.wordSize.toNat),
    List.range_add, List.map_append, List.map_map, List.flatMap_singleton]
  rfl

/-- The lines are labelled with where they start, up to the end. -/
theorem label_eq (even : Even r m q) (memory : Nat → UInt8) (i : Nat) :
    ((((List.range (lines r.bytes r.bytesPerLine.toNat)).map (textOf r memory m q))[i]?).map
        fun line => line.label.toNat) =
      if r.start.toNat + i * r.bytesPerLine.toNat < r.stop.toNat then
        some (r.start.toNat + i * r.bytesPerLine.toNat) else none := by
  have perLine_pos := even.perLine_pos
  have ordered := even.ordered
  have small := even.small
  have range : r.bytes = r.stop.toNat - r.start.toNat := rfl
  rw [List.getElem?_map, Option.map_map]
  by_cases inside : i < lines r.bytes r.bytesPerLine.toNat
  · have less := (Nat.mul_lt_mul_right even.pos).mpr (even.line_lt inside)
    have product := even.product_eq inside
    rw [← even.bytes, range] at less
    rw [Nat.mul_right_comm, ← even.perLine, Nat.mul_comm] at product less
    rw [List.getElem?_range inside, if_pos (by omega), Option.map_some, Function.comp, textOf,
      Request.label, UInt64.toNat_add, UInt32.toNat_toUInt64, UInt32.mul_comm, ← Request.product,
      product, Nat.mod_eq_of_lt (by omega)]
  · obtain ⟨p, lines_eq, -, behind⟩ := exists_lines (Request.bytes_pos even.toOrdered) perLine_pos
    have far := Nat.mul_le_mul_right r.bytesPerLine.toNat (Nat.le_of_not_lt inside)
    rw [lines_eq, Nat.add_one_mul, Nat.mul_comm p] at far
    rw [List.getElem?_eq_none (by simpa using inside), if_neg (by omega)]
    rfl

end Even

/-! ## The dump -/

/-- An end inside guest memory is not rounded up behind it. -/
theorem roundUp_le {wordSize stop memSize : Nat} (whole : wordSize ∣ memSize)
    (inside : stop ≤ memSize) : roundUp stop wordSize ≤ memSize := by
  unfold roundUp
  split
  · exact inside
  · next partly =>
    obtain ⟨n, rfl⟩ := whole
    have parts := Nat.div_add_mod stop wordSize
    have before : wordSize * (stop / wordSize) < wordSize * n := by omega
    have next := Nat.mul_le_mul_left wordSize (Nat.succ_le_of_lt (Nat.lt_of_mul_lt_mul_left before))
    rw [Nat.mul_succ] at next
    omega

theorem dvd_roundUp (stop wordSize : Nat) : wordSize ∣ roundUp stop wordSize := by
  unfold roundUp
  split
  · next whole => exact Nat.dvd_of_mod_eq_zero whole
  · exact Nat.dvd_add (Nat.dvd_sub_mod _) (Nat.dvd_refl _)

theorem even_request {memSize : Int64} {start stop : UInt64} {wordSize bytesPerLine : UInt32}
    (ordered : start < stop) (inside : (stop.toNat : Int) ≤ memSize.toInt)
    (small : memSize.toInt < 2 ^ 31) (words : 0 < wordSize.toNat) (perLine : 0 < bytesPerLine.toNat)
    (wholeLines : wordSize.toNat ∣ bytesPerLine.toNat)
    (wholeMemory : (wordSize.toNat : Int) ∣ memSize.toInt) :
    (alignEnd memSize stop wordSize).toNat = roundUp stop.toNat wordSize.toNat ∧
      Even (request memSize start stop wordSize bytesPerLine)
        (bytesPerLine.toNat / wordSize.toNat)
        ((request memSize start stop wordSize bytesPerLine).bytes / wordSize.toNat) := by
  have wholeNat : wordSize.toNat ∣ memSize.toInt.toNat := by
    rw [← Int.natCast_dvd_natCast, Int.toNat_of_nonneg (by omega)]
    exact wholeMemory
  have less := UInt64.lt_iff_toNat_lt.mp ordered
  have narrow := Nat.le_of_dvd (by omega) wholeNat
  have cut : roundUp stop.toNat wordSize.toNat ≤ memSize.toInt.toNat :=
    roundUp_le wholeNat (by omega)
  have up := (roundUp_bounds words stop.toNat).1
  have stops : (alignEnd memSize stop wordSize).toNat = roundUp stop.toNat wordSize.toNat := by
    rcases alignEnd_toNat wordSize inside (by omega) with eq | ⟨eq, le⟩ <;> omega
  have starts := alignStart_toNat start wordSize
  have bytes : (request memSize start stop wordSize bytesPerLine).bytes =
      roundUp stop.toNat wordSize.toNat - (start.toNat - start.toNat % wordSize.toNat) := by
    rw [← stops, ← starts]
    rfl
  refine ⟨stops, ⟨?_, ?_⟩, words, (Nat.div_mul_cancel wholeLines).symm, ?_, ?_, ?_⟩
  · change (alignStart start wordSize).toNat < (alignEnd memSize stop wordSize).toNat
    omega
  · change (alignEnd memSize stop wordSize).toNat < _
    omega
  · refine (Nat.div_mul_cancel ?_).symm
    rw [bytes]
    exact Nat.dvd_sub (dvd_roundUp _ _) (Nat.dvd_sub_mod _)
  · change (alignEnd memSize stop wordSize).toNat < _
    omega
  · exact Nat.div_pos (Nat.le_of_dvd perLine wholeLines) words

/-- The words that are printed are those of the range when the last line is whole. -/
theorem count_iff {r : Request} {m q p : Nat} (even : Even r m q)
    (lines_eq : lines r.bytes r.bytesPerLine.toNat = p + 1) :
    p * m + count m q p = q ↔ m ∣ q := by
  obtain ⟨p', lines_eq', before, behind⟩ := exists_lines (Request.bytes_pos even.toOrdered)
    even.perLine_pos
  obtain rfl : p' = p := by omega
  rw [even.perLine, even.bytes, Nat.mul_right_comm] at before behind
  have first := Nat.lt_of_mul_lt_mul_right before
  rw [← Nat.add_mul] at behind
  have last := Nat.le_of_mul_le_mul_right behind even.pos
  rw [Nat.mul_comm p', count]
  constructor
  · intro all
    exact ⟨p' + 1, by rw [Nat.mul_succ]; omega⟩
  · rintro ⟨n, rfl⟩
    rw [← Nat.mul_succ] at last
    have := Nat.lt_of_mul_lt_mul_left first
    have := Nat.le_of_mul_le_mul_left last even.m_pos
    obtain rfl : n = p' + 1 := by omega
    rw [Nat.mul_succ]
    omega

theorem shows_iff {r : Request} {m q : Nat} (even : Even r m q) (memory : Nat → UInt8) :
    Shows memory r.start.toNat r.stop.toNat r.wordSize.toNat r.bytesPerLine.toNat
        ⟨r.start, r.stop, (List.range (lines r.bytes r.bytesPerLine.toNat)).map
          (textOf r memory m q)⟩ ↔ r.bytesPerLine.toNat ∣ r.bytes := by
  obtain ⟨p, lines_eq, -⟩ := exists_lines (Request.bytes_pos even.toOrdered)
    even.perLine_pos
  have all : (r.stop.toNat - r.start.toNat) / r.wordSize.toNat = q :=
    Nat.div_eq_of_eq_mul_left even.pos even.bytes
  have words := even.words_eq memory lines_eq
  rw [← lines_eq] at words
  have same := map_range_inj (n := p * m + count m q p) (m := q) fun k =>
    wordAt memory r.wordSize.toNat (r.start.toNat + k * r.wordSize.toNat)
  rw [even.perLine, even.bytes, Nat.mul_dvd_mul_iff_right even.pos, ← even.perLine, ← even.bytes,
    ← count_iff even lines_eq, ← same]
  constructor
  · intro shows
    have shown := shows.words
    rwa [words, all] at shown
  · intro same
    refine ⟨even.label_eq memory, ?_⟩
    rw [words, all]
    exact same

/-- A dump shows the range exactly when its lines are whole. -/
theorem showsRange_iff_whole (memory : Nat → UInt8) {memSize : Int64} {start stop : UInt64}
    {wordSize bytesPerLine : UInt32} (ordered : start < stop)
    (inside : (stop.toNat : Int) ≤ memSize.toInt) (small : memSize.toInt < 2 ^ 31)
    (words : 0 < wordSize.toNat) (perLine : 0 < bytesPerLine.toNat)
    (wholeLines : wordSize.toNat ∣ bytesPerLine.toNat)
    (wholeMemory : (wordSize.toNat : Int) ∣ memSize.toInt) :
    ShowsRange memory memSize start stop wordSize bytesPerLine ↔
      bytesPerLine.toNat ∣ roundUp stop.toNat wordSize.toNat -
        (start.toNat - start.toNat % wordSize.toNat) := by
  obtain ⟨stops, even⟩ := even_request ordered inside small words perLine wholeLines wholeMemory
  have starts := alignStart_toNat start wordSize
  have sizes : ¬ (wordSize = 0 ∨ bytesPerLine = 0) := by
    rintro (rfl | rfl)
    · exact absurd words (Nat.lt_irrefl 0)
    · exact absurd perLine (Nat.lt_irrefl 0)
  have dump (fuel : Nat) (enough : bytesPerLine.toNat / wordSize.toNat < fuel) :
      DumpText.miniKvmDumpMem fuel memory memSize start stop wordSize bytesPerLine = some
        ⟨alignStart start wordSize, alignEnd memSize stop wordSize, _⟩ :=
    (if_neg sizes).trans (congrArg (Option.map _) (even.printed memory enough))
  have shown := shows_iff even memory
  rw [ShowsRange, ← stops, ← starts]
  constructor
  · rintro ⟨fuel, text, ends, shows⟩
    have later := miniKvmDumpMem_mono
      (Nat.le_max_left fuel (bytesPerLine.toNat / wordSize.toNat + 1)) ends
    obtain rfl := Option.some.inj (later.symm.trans (dump _ (by omega)))
    exact shown.mp shows
  · exact fun whole => ⟨_, _, dump _ (Nat.lt_succ_self _), shown.mpr whole⟩

/-- Bytes that differ from place to place. -/
def ramp : ByteMem := fun a => .ofNat a

theorem page_shown : ShowsRange ramp 0x5000 0 0x1000 2 16 :=
  (showsRange_iff_whole ramp (by decide) (by decide) (by decide) (by decide) (by decide)
    (by decide) (by decide)).mpr (by decide)

/-- Of one word in a line of eight, two are shown. -/
theorem oneWord_not_shown : ¬ ShowsRange (fun _ => 0) 0x5000 0 2 2 16 := by
  rintro ⟨fuel, text, ends, shows⟩
  have two : DumpText.miniKvmDumpMem 3 (fun _ => 0) 0x5000 0 2 2 16 =
      some ⟨0, 2, [⟨0, [[0, 0], [0, 0]]⟩]⟩ := by decide
  have both := (miniKvmDumpMem_mono (Nat.le_max_left fuel 3) ends).symm.trans
    (miniKvmDumpMem_mono (Nat.le_max_right fuel 3) two)
  obtain rfl := Option.some.inj both
  exact absurd shows.words (by decide)

end MiniKvm.Guarantees.DumpedRange
