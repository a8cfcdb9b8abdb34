import MiniKvm.Guarantees.DumpedRange
import MiniKvm.Source.Printing

/-!
# From a dump back to memory

The text that mini_kvm_dump_mem prints, as a format that can be read, and what is read: the bytes with
the places that the labels and the order of the words give them. They are those of guest memory as long
as the counters of the dump do not wrap; how the words lie in the lines plays no part.
-/
namespace MiniKvm.Guarantees.DumpReadBack
open Lib Source Source.DumpMem Source.DumpText Source.Printing DumpedRange
open DumpCounters (lines)

/-! ## The text of a dump -/

def startsWith (c : Char) (text : List Char) : Bool := text.head? == some c

theorem startsWith_numeral {base : Nat} (two : 1 < base) (hex : base ≤ 16) (width n : Nat) {c : Char}
    (other : Format.isDigit base c = false) (rest : List Char) :
    startsWith c (Format.numeral base width n ++ rest) = false := by
  obtain ⟨d, digits, eq, isDigit⟩ := Format.numeral_eq_cons two hex width n
  have differ : d ≠ c := by
    rintro rfl
    rw [isDigit] at other
    cases other
  simp [startsWith, eq, differ]

def decimal : Format UInt64 := .decimal 1 .ofNat UInt64.toNat fun _ => UInt64.ofNat_toNat

def byte : Format UInt8 :=
  .hexOfWidth 2 .ofNat UInt8.toNat (fun _ => UInt8.ofNat_toNat) Nat.two_pos
    fun b => UInt8.toNat_lt b

def label : Format UInt64 := .hexadecimal 8 .ofNat UInt64.toNat fun _ => UInt64.ofNat_toNat

theorem startsWith_byte (b : UInt8) (rest : List Char) :
    startsWith ' ' (hx02 b ++ rest) = false :=
  startsWith_numeral (by decide) (by decide) 2 b.toNat (by decide) rest

def word : Format (List UInt8) :=
  (byte.many (startsWith ' ') (fun _ => trivial) startsWith_byte
    fun _ => Format.numeral_ne_nil _ _ _).before " ".toList fun _ => rfl

theorem startsWith_word (word : List UInt8) (rest : List Char) :
    startsWith '\n' (wordText word ++ rest) = false := by
  cases word with
  | nil => rfl
  | cons b bytes =>
    rw [wordText, List.flatMap_cons, List.append_assoc, List.append_assoc, hx02]
    exact startsWith_numeral (by decide) (by decide) 2 b.toNat (by decide) _

theorem wordText_ne_nil (word : List UInt8) : wordText word ≠ [] :=
  List.append_ne_nil_of_right_ne_nil _ (by decide)

def line : Format Line :=
  (((label.before "\t".toList fun _ => rfl).after "0x".toList).seq
    (word.many (startsWith '\n') (fun _ => trivial) startsWith_word wordText_ne_nil)
      fun _ _ _ => trivial).before "\n".toList (fun _ => rfl)
  |>.imap (fun both => ⟨both.1, both.2⟩) (fun line => (line.label, line.words)) fun _ => rfl

def dump : Format Text :=
  ((((decimal.before " -> @".toList fun _ => rfl).seq (decimal.before "\n".toList fun _ => rfl)
    fun _ _ _ => trivial).seq
      (line.many List.isEmpty (fun _ => trivial) (fun _ _ => rfl)
        fun _ => List.append_ne_nil_of_left_ne_nil (List.cons_ne_nil _ _) _)
          fun _ _ _ => trivial).after "mem dump: @".toList).imap
          (fun parts => ⟨parts.1.1, parts.1.2, parts.2⟩)
          (fun text => ((text.start, text.stop), text.lines)) fun _ => rfl

theorem print_line (line : Line) : DumpReadBack.line.print line = lineText line := by
  change (("0x".toList ++ (lx08 line.label ++ "\t".toList)) ++ line.words.flatMap wordText) ++
    "\n".toList = lineText line
  rw [lineText]
  simp only [List.append_assoc]

/-- It prints what mini_kvm_dump_mem does. -/
theorem print_dump (text : Text) : dump.print text = dumpText text := by
  change "mem dump: @".toList ++ (((lu text.start.toNat ++ " -> @".toList) ++
    (lu text.stop.toNat ++ "\n".toList)) ++ text.lines.flatMap line.print) = dumpText text
  rw [funext print_line]
  unfold dumpText
  simp only [List.append_assoc]

theorem parse_dumpText (text : Text) : dump.parse (dumpText text) = some text := by
  rw [← print_dump]
  exact dump.parse_print rfl text

/-! ## The bytes of a dump -/

/-- The bytes of a line with their places: a word is printed from its last byte on. -/
def lineImage (line : Line) : List (Nat × UInt8) :=
  (line.words.flatMap List.reverse).mapIdx fun i b => (line.label.toNat + i, b)

def image (text : Text) : List (Nat × UInt8) := text.lines.flatMap lineImage

section Image

variable {r : DumpCounters.Request} {line : Nat}

/-- The loop on `word` is left. -/
theorem exists_stop (valid : r.Valid) (line : Nat) :
    ∃ n, ¬ r.loops.Goes (r.product line) n ∧
      ∀ k < n, r.loops.Goes (r.product line) k := by
  classical
  have leaves : ∃ n, ¬ r.loops.Goes (r.product line) n := by
    by_contra always
    simp only [not_exists, not_not] at always
    have last := DumpCounters.Request.word_eq (k := r.bytesPerLine.toNat) valid
      fun i _ => (always i).1
    have inLine := (always r.bytesPerLine.toNat).1
    have far := Nat.le_mul_of_pos_right r.bytesPerLine.toNat valid.wordSize_pos
    rw [last] at inLine
    exact absurd inLine (Nat.not_lt.mpr far)
  exact ⟨Nat.find leaves, Nat.find_spec leaves, fun k less => not_not.mp (Nat.find_min leaves less)⟩

/-- A line comes to its end. Its words are printed from their places, all those among them that start
in the line and in the range. -/
theorem exists_line (valid : r.Valid)
    (small : DumpCounters.Small r.bytes r.wordSize.toNat r.bytesPerLine.toNat)
    (memory : Nat → UInt8) (inside : line < lines r.bytes r.bytesPerLine.toNat) :
    ∃ n ≤ r.bytesPerLine.toNat,
      (∀ k, k * r.wordSize.toNat < r.bytesPerLine.toNat →
        k * r.wordSize.toNat + r.bytesPerLine.toNat * line ≤ r.bytes → k < n) ∧
      ∀ fuel, n < fuel →
        printLine fuel memory r.start r.stop r.wordSize r.bytesPerLine (.ofNat line) =
          some ⟨r.label (.ofNat line), (List.range n).map fun k => wordAt memory r.wordSize.toNat
            (r.start.toNat + (k * r.wordSize.toNat + r.bytesPerLine.toNat * line))⟩ := by
  obtain ⟨n, leaves, before⟩ := exists_stop valid line
  have words {k : Nat} (le : k ≤ n) : r.loops.word k = k * r.wordSize.toNat :=
    DumpCounters.Request.word_eq valid fun i less => (before i (by omega)).1
  have computes {k : Nat} (le : k ≤ n) (inLine : k * r.wordSize.toNat < r.bytesPerLine.toNat) :
      r.Computes (.ofNat line) k (.ofNat (k * r.wordSize.toNat)) :=
    DumpCounters.Request.computes_iff.mpr ⟨fun i less => before i (by omega), by rwa [words le], rfl⟩
  refine ⟨n, ?_, fun k inLine inRange => ?_, fun fuel enough => ?_⟩
  · by_contra more
    have goes := (before r.bytesPerLine.toNat (by omega)).1
    rw [words (by omega)] at goes
    exact absurd goes (Nat.not_lt.mpr (Nat.le_mul_of_pos_right _ valid.wordSize_pos))
  · by_contra behind
    have le := Nat.mul_le_mul_right r.wordSize.toNat (Nat.le_of_not_lt behind)
    have here := DumpCounters.Request.computed_le valid small inside
      (computes (Nat.le_refl n) (by omega))
    have offsets := small.offsets
    have product := DumpCounters.Request.product_exact small inside
    refine leaves ((DumpCounters.Request.goes_iff valid.toOrdered (words (Nat.le_refl n))
      (by omega)).mpr ⟨by omega, by omega⟩)
  · have follows := (MemoryDump.follows_wordStep 0 r.start r.stop r.wordSize r.bytesPerLine
      (.ofNat line)).map fun reads => [reads.map fun place => memory place.toNat]
    have loop := follows.collect_eq n fuel before leaves enough
    rw [Nat.zero_mul, show UInt32.ofNat 0 = 0 from rfl] at loop
    rw [printLine, show WhileLoop.collect (printStep memory r.start r.stop r.wordSize r.bytesPerLine
      (.ofNat line)) fuel 0 = _ from loop, Option.map_some, ← List.map_eq_flatMap]
    congr 2
    refine List.map_congr_left fun k member => ?_
    have less := List.mem_range.mp member
    have here := computes less.le (by
      rw [← words less.le]
      exact (before k less).1)
    have offset := DumpCounters.Request.offset_exact valid small inside here
    have le := DumpCounters.Request.computed_le valid small inside here
    have offsets := small.offsets
    have product := DumpCounters.Request.product_exact small inside
    obtain ⟨-, inRange⟩ := (DumpCounters.Request.goes_iff valid.toOrdered (words less.le)
      (by omega)).mp (before k less)
    have ordered := valid.ordered
    have stop_lt := valid.stop_lt
    have goesOn : ¬ r.stop <
        (r.offset (.ofNat line) (.ofNat (k * r.wordSize.toNat))).toUInt64 + r.start := by
      rw [UInt64.lt_iff_toNat_lt, UInt64.toNat_add, UInt32.toNat_toUInt64, offset]
      unfold DumpCounters.Request.bytes at inRange
      omega
    have places := congrArg (List.map memory)
      (DumpCounters.Request.read_exact valid small inside here goesOn)
    rwa [List.map_map, List.map_map] at places

/-- A line of words that are printed from their places holds the bytes from its label on. -/
theorem lineImage_eq (memory : Nat → UInt8) (start : UInt64) (wordSize n : Nat) :
    lineImage ⟨start, (List.range n).map fun k =>
        wordAt memory wordSize (start.toNat + k * wordSize)⟩ =
      (List.range (n * wordSize)).map fun o => (start.toNat + o, memory (start.toNat + o)) := by
  have bytes : ((List.range n).map fun k =>
      wordAt memory wordSize (start.toNat + k * wordSize)).flatMap List.reverse =
        (List.range (n * wordSize)).map fun o => memory (start.toNat + o) := by
    rw [← flatMap_range_mul, List.flatMap_map]
    refine List.flatMap_congr fun k _ => ?_
    rw [wordAt, ← List.map_reverse, List.reverse_reverse]
    simp only [Nat.add_assoc]
  rw [lineImage, bytes, List.mapIdx_eq_iff]
  intro o
  rw [List.getElem?_map, List.getElem?_map, Option.map_map]
  by_cases inside : o < n * wordSize
  · rw [List.getElem?_range inside]
    rfl
  · rw [List.getElem?_eq_none (by simpa using inside)]
    rfl

/-- The bytes of such lines. -/
theorem mem_image_iff (memory : Nat → UInt8) (first last : UInt64) (wordSize lines : Nat)
    (label : Nat → UInt64) (count : Nat → Nat) (entry : Nat × UInt8) :
    entry ∈ image ⟨first, last, (List.range lines).map fun i =>
        ⟨label i, (List.range (count i)).map fun k =>
          wordAt memory wordSize ((label i).toNat + k * wordSize)⟩⟩ ↔
      ∃ i < lines, ∃ o < count i * wordSize,
        entry = ((label i).toNat + o, memory ((label i).toNat + o)) := by
  simp only [image, List.flatMap_map, List.mem_flatMap, List.mem_range, lineImage_eq, List.mem_map,
    eq_comm]

/-- With enough fuel the lines are printed, each with so many words. -/
theorem exists_lines (valid : r.Valid)
    (small : DumpCounters.Small r.bytes r.wordSize.toNat r.bytesPerLine.toNat)
    (memory : Nat → UInt8) :
    ∃ count : Nat → Nat,
      (∀ i < lines r.bytes r.bytesPerLine.toNat, ∀ k,
        k * r.wordSize.toNat < r.bytesPerLine.toNat →
          k * r.wordSize.toNat + r.bytesPerLine.toNat * i ≤ r.bytes → k < count i) ∧
      printLines (printLine (r.bytesPerLine.toNat + 1) memory r.start r.stop r.wordSize
          r.bytesPerLine) (nbLines r.start r.stop r.bytesPerLine).toNat 0 =
        some ((List.range (lines r.bytes r.bytesPerLine.toNat)).map fun i =>
          ⟨r.label (.ofNat i), (List.range (count i)).map fun k =>
            wordAt memory r.wordSize.toNat
              ((r.label (.ofNat i)).toNat + k * r.wordSize.toNat)⟩) := by
  have each (i : Nat) : ∃ n, i < lines r.bytes r.bytesPerLine.toNat →
      (∀ k, k * r.wordSize.toNat < r.bytesPerLine.toNat →
        k * r.wordSize.toNat + r.bytesPerLine.toNat * i ≤ r.bytes → k < n) ∧
      printLine (r.bytesPerLine.toNat + 1) memory r.start r.stop r.wordSize r.bytesPerLine
          (.ofNat i) = some ⟨r.label (.ofNat i), (List.range n).map fun k =>
            wordAt memory r.wordSize.toNat
              ((r.label (.ofNat i)).toNat + k * r.wordSize.toNat)⟩ := by
    by_cases inside : i < lines r.bytes r.bytesPerLine.toNat
    · obtain ⟨n, few, all, prints⟩ := exists_line valid small memory inside
      have label := DumpCounters.Request.label_exact valid small inside
      refine ⟨n, fun _ => ⟨all, ?_⟩⟩
      rw [prints _ (Nat.lt_succ_of_le few), label]
      simp only [Nat.add_assoc, Nat.add_comm (_ * r.wordSize.toNat)]
    · exact ⟨0, fun here => absurd here inside⟩
  choose count counts using each
  refine ⟨count, fun i inside => (counts i inside).1, ?_⟩
  rw [DumpCounters.Request.nbLines_toNat valid.toOrdered, Nat.mod_eq_of_lt small.lines]
  refine printLines_eq fun i inside => ?_
  rw [UInt32.zero_add]
  exact (counts i inside).2

/-- Every place of the range is in a word of its line. -/
theorem exists_place (valid : r.Valid)
    (small : DumpCounters.Small r.bytes r.wordSize.toNat r.bytesPerLine.toNat) {count : Nat → Nat}
    (all : ∀ i < lines r.bytes r.bytesPerLine.toNat, ∀ k,
      k * r.wordSize.toNat < r.bytesPerLine.toNat →
        k * r.wordSize.toNat + r.bytesPerLine.toNat * i ≤ r.bytes → k < count i)
    {place : Nat} (above : r.start.toNat ≤ place) (below : place < r.stop.toNat) :
    ∃ i < lines r.bytes r.bytesPerLine.toNat, ∃ o < count i * r.wordSize.toNat,
      place = (r.label (.ofNat i)).toNat + o := by
  obtain ⟨d, rfl⟩ := Nat.exists_eq_add_of_le above
  have inRange : d < r.bytes := by
    unfold DumpCounters.Request.bytes
    omega
  have line := Nat.div_add_mod d r.bytesPerLine.toNat
  have inLine := Nat.mod_lt d valid.bytes_pos
  have word := Nat.div_mul_le_self (d % r.bytesPerLine.toNat) r.wordSize.toNat
  obtain ⟨q, lines_eq, -, behind⟩ :=
    DumpCounters.exists_lines (DumpCounters.Request.bytes_pos valid.toOrdered) valid.bytes_pos
  have inside : d / r.bytesPerLine.toNat < lines r.bytes r.bytesPerLine.toNat := by
    rw [lines_eq, Nat.div_lt_iff_lt_mul valid.bytes_pos, Nat.add_one_mul, Nat.mul_comm q]
    omega
  have more := all _ inside (d % r.bytesPerLine.toNat / r.wordSize.toNat) (by omega) (by omega)
  refine ⟨_, inside, d % r.bytesPerLine.toNat, ?_, ?_⟩
  · exact (Nat.div_lt_iff_lt_mul valid.wordSize_pos).mp more
  · rw [DumpCounters.Request.label_exact valid small inside]
    omega

end Image

/-- A dump whose counters are small is turned back, from the characters it prints, into guest memory:
whatever byte is read is the one at its place, and every place of the range is there. -/
theorem dump_read_back (memory : Nat → UInt8) {memSize : Int64} {start stop : UInt64}
    {wordSize bytesPerLine : UInt32} (ordered : start < stop)
    (inside : (stop.toNat : Int) ≤ memSize.toInt)
    (words : 1 ≤ wordSize.toNat ∧ wordSize.toNat ≤ 2 ^ 31 - 1)
    (perLine : 1 ≤ bytesPerLine.toNat ∧ bytesPerLine.toNat ≤ 2 ^ 31 - 1)
    (small : DumpCounters.Small
      (DumpCounters.request memSize start stop wordSize bytesPerLine).bytes wordSize.toNat
      bytesPerLine.toNat) :
    ∃ fuel text shown,
      DumpText.miniKvmDumpMem fuel memory memSize start stop wordSize bytesPerLine = some text ∧
        (dump.parse (dumpText text)).map image = some shown ∧
          (∀ entry ∈ shown, entry.2 = memory entry.1) ∧
            ∀ place, (alignStart start wordSize).toNat ≤ place →
              place < (alignEnd memSize stop wordSize).toNat → (place, memory place) ∈ shown := by
  have valid := DumpCounters.valid_request ordered inside words perLine
  obtain ⟨count, all, printed⟩ := exists_lines valid small memory
  have sizes : ¬ (wordSize = 0 ∨ bytesPerLine = 0) := by
    rintro (rfl | rfl)
    · exact absurd words.1 (by decide)
    · exact absurd perLine.1 (by decide)
  refine ⟨_, _, _, (if_neg sizes).trans (congrArg (Option.map _) printed),
    congrArg (Option.map image) (parse_dumpText _), fun entry member => ?_, fun place above below => ?_⟩
  · obtain ⟨i, -, o, -, rfl⟩ := (mem_image_iff ..).mp member
    rfl
  · obtain ⟨i, inLines, o, inLine, rfl⟩ := exists_place valid small all above below
    exact (mem_image_iff ..).mpr ⟨i, inLines, o, inLine, rfl⟩

theorem page_read_back : ∃ fuel text shown,
    DumpText.miniKvmDumpMem fuel (fun place => .ofNat place) 0x5000 1 0x1001 4 24 = some text ∧
      (dump.parse (dumpText text)).map image = some shown ∧
        (∀ entry ∈ shown, entry.2 = .ofNat entry.1) ∧
          ∀ place, 0 ≤ place → place < 0x1004 → (place, .ofNat place) ∈ shown :=
  dump_read_back (fun place => .ofNat place) (by decide) (by decide) (by decide) (by decide)
    ⟨by decide, by decide, by decide⟩

end MiniKvm.Guarantees.DumpReadBack
