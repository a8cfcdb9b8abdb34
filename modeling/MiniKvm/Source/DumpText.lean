import MiniKvm.Source.DumpMem

/-!
# The text of a dump

What mini_kvm_dump_mem prints, over the loops of `DumpMem`: a line for the range, `mem dump: @%lu ->
@%lu`, and for each line of memory its label as `0x%08lx`, a tab, and its words, each as its bytes in
`%02hx` and a blank. What is behind guest memory is part of `memory` too.
-/
namespace MiniKvm.Source.DumpText
open Lib DumpMem

/-- The label, and the bytes of each word in the order they are printed. -/
structure Line where
  label : UInt64
  words : List (List UInt8)
  deriving DecidableEq, Repr

structure Text where
  start : UInt64
  stop : UInt64
  lines : List Line
  deriving DecidableEq, Repr

/-- The loop on `word`, with what it prints. -/
def printStep (memory : Nat → UInt8) (start stop : UInt64)
    (wordSize bytesPerLine line word : UInt32) : Option (List (List UInt8) × UInt32) :=
  (wordStep start stop wordSize bytesPerLine line word).map fun round =>
    ([round.1.map fun place => memory place.toNat], round.2)

/-- A pass of the loop on `line`; the product in the label is a uint32_t. -/
def printLine (fuel : Nat) (memory : Nat → UInt8) (start stop : UInt64)
    (wordSize bytesPerLine line : UInt32) : Option Line :=
  (WhileLoop.collect (printStep memory start stop wordSize bytesPerLine line) fuel 0).map
    (Line.mk (start + (line * bytesPerLine).toUInt64))

/-- The loop on `line`, with so many lines to go. -/
def printLines (printLine : UInt32 → Option Line) : Nat → UInt32 → Option (List Line)
  | 0, _ => some []
  | lines + 1, line =>
    match printLine line with
    | none => none
    | some text => (printLines printLine lines (line + 1)).map (text :: ·)

/-- The text of a dump that comes to its end, with the fuel of `DumpMem`. -/
def miniKvmDumpMem (fuel : Nat) (memory : Nat → UInt8) (memSize : Int64) (start stop : UInt64)
    (wordSize bytesPerLine : UInt32) : Option Text :=
  if wordSize = 0 ∨ bytesPerLine = 0 then none
  else
    let start := alignStart start wordSize
    let stop := alignEnd memSize stop wordSize
    (printLines (printLine fuel memory start stop wordSize bytesPerLine)
      (nbLines start stop bytesPerLine).toNat 0).map (Text.mk start stop)

/-! ## What is printed is what is read -/

section Reads

variable {memory : Nat → UInt8} {start stop : UInt64} {wordSize bytesPerLine : UInt32}

/-- The bytes of a line. -/
def Line.bytes (line : Line) : List UInt8 := line.words.flatten

theorem collect_printStep (fuel : Nat) (line word : UInt32) :
    (WhileLoop.collect (printStep memory start stop wordSize bytesPerLine line) fuel word).map
        List.flatten =
      (WhileLoop.collect (wordStep start stop wordSize bytesPerLine line) fuel word).map
        (List.map fun place => memory place.toNat) := by
  induction fuel generalizing word with
  | zero => rfl
  | succ fuel ih =>
    simp only [WhileLoop.collect, printStep]
    cases wordStep start stop wordSize bytesPerLine line word with
    | none => rfl
    | some round =>
      have rest := ih round.2
      -- Both sides put the bytes of this word before what the rest of the line puts out.
      have read : (List.map fun place : UInt64 => memory place.toNat) ∘ (round.1 ++ ·) =
          ((round.1.map fun place => memory place.toNat) ++ ·) ∘
            List.map fun place => memory place.toNat :=
        funext fun _ => List.map_append
      have both := congrArg (Option.map ((round.1.map fun place => memory place.toNat) ++ ·)) rest
      rw [Option.map_map, Option.map_map] at both
      simp only [Option.map_some, Option.map_map, read]
      exact both

theorem printLine_bytes (fuel : Nat) (line : UInt32) :
    (printLine fuel memory start stop wordSize bytesPerLine line).map Line.bytes =
      (WhileLoop.collect (wordStep start stop wordSize bytesPerLine line) fuel 0).map
        (List.map fun place => memory place.toNat) := by
  rw [← collect_printStep, printLine, Option.map_map]
  rfl

theorem printLines_bytes (fuel lines : Nat) (line : UInt32) :
    (printLines (printLine fuel memory start stop wordSize bytesPerLine) lines line).map
        (List.flatMap Line.bytes) =
      (dumpLines (fun line => WhileLoop.collect (wordStep start stop wordSize bytesPerLine line)
        fuel 0) lines line).map (List.map fun place => memory place.toNat) := by
  induction lines generalizing line with
  | zero => rfl
  | succ lines ih =>
    have here := @printLine_bytes memory start stop wordSize bytesPerLine fuel line
    have rest := ih (line + 1)
    simp only [printLines, dumpLines]
    cases printed : printLine fuel memory start stop wordSize bytesPerLine line with
    | none =>
      rw [printed, Option.map_none, eq_comm, Option.map_eq_none_iff] at here
      rw [here]
      rfl
    | some text =>
      rw [printed, Option.map_some, eq_comm, Option.map_eq_some_iff] at here
      obtain ⟨reads, collected, bytes⟩ := here
      have read : (List.map fun place : UInt64 => memory place.toNat) ∘ (reads ++ ·) =
          (text.bytes ++ ·) ∘ List.map fun place => memory place.toNat :=
        funext fun _ => by rw [Function.comp, List.map_append, bytes]; rfl
      have both := congrArg (Option.map (text.bytes ++ ·)) rest
      rw [Option.map_map, Option.map_map] at both
      simp only [collected, Option.map_map, read]
      exact both

/-- The bytes that are printed are those at the places that are read, in order. -/
theorem bytes_of_done {fuel : Nat} {memSize : Int64} {text : Text} {reads : List UInt64}
    (printed : miniKvmDumpMem fuel memory memSize start stop wordSize bytesPerLine = some text)
    (done : DumpMem.miniKvmDumpMem fuel memSize start stop wordSize bytesPerLine = .done reads) :
    text.lines.flatMap Line.bytes = reads.map fun place => memory place.toNat := by
  unfold miniKvmDumpMem at printed
  split at printed
  · cases printed
  · next sizes =>
    obtain ⟨words, perLine⟩ := not_or.mp sizes
    obtain ⟨lines, loop, rfl⟩ := Option.map_eq_some_iff.mp printed
    have same := @printLines_bytes memory (alignStart start wordSize)
      (alignEnd memSize stop wordSize) wordSize bytesPerLine fuel
      (nbLines (alignStart start wordSize) (alignEnd memSize stop wordSize) bytesPerLine).toNat 0
    rw [loop, Option.map_some, eq_comm, Option.map_eq_some_iff] at same
    obtain ⟨reads', collected, bytes⟩ := same
    simp only [DumpMem.miniKvmDumpMem, if_neg words, if_neg perLine, collected,
      Dump.done.injEq] at done
    rw [← done, bytes]

end Reads

end MiniKvm.Source.DumpText
