import MiniKvm.Lib.WhileLoop
import MiniKvm.Source.Core

/-!
# A dump of guest memory

mini_kvm_dump_mem (kvm/kvm.c) and its call in status_handle_dump_mem (commands/status.c), with the
conversions of C between int64_t, uint64_t, uint32_t and int32_t. What it prints around the bytes is
left out; the bytes are known by their offsets in guest memory, where the pointer arithmetic is modulo
2^64 as on the machine.
-/
namespace MiniKvm.Source.DumpMem
open Lib

/-- What comes of a dump: SIGFPE, no end within the fuel, or the offsets read, in order. -/
inductive Dump where
  | divides | outOfFuel
  | done (reads : List UInt64)
  deriving DecidableEq, Repr

/-! ## mini_kvm_dump_mem -/

/-- `start` rounded down to the words. -/
def alignStart (start : UInt64) (wordSize : UInt32) : UInt64 := start - start % wordSize.toUInt64

/-- `end` rounded up to the words, and cut at the end of guest memory; the comparison is signed. -/
def alignEnd (memSize : Int64) (stop : UInt64) (wordSize : UInt32) : UInt64 :=
  let word := wordSize.toUInt64
  let stop := if stop % word = 0 then stop else stop - stop % word + word
  if memSize < stop.toInt64 then memSize.toUInt64 else stop

/-- `nb_lines`, a uint32_t. -/
def nbLines (start stop : UInt64) (bytesPerLine : UInt32) : UInt32 :=
  let bytes := bytesPerLine.toUInt64
  ((stop - start) / bytes + if (stop - start) % bytes ≠ 0 then 1 else 0).toUInt32

/-- The values of `word_offset`, an int32_t from `word_size - 1` down to 0, as they are added. -/
def wordOffsets (wordSize : UInt32) : List UInt32 :=
  (List.range ((wordSize - 1).toInt32.toInt + 1).toNat).reverse.map UInt32.ofNat

/-- `start_ptr[offset + word_offset]`; the sum in the brackets is a uint32_t. -/
def readWord (start : UInt64) (wordSize offset : UInt32) : List UInt64 :=
  (wordOffsets wordSize).map fun wordOffset => start + (offset + wordOffset).toUInt64

/-- The loop on `word`. -/
def wordStep (start stop : UInt64) (wordSize bytesPerLine line word : UInt32) :
    Option (List UInt64 × UInt32) :=
  if word < bytesPerLine then
    let offset := word + bytesPerLine * line
    if stop < offset.toUInt64 + start then none
    else some (readWord start wordSize offset, word + wordSize)
  else none

/-- The loop on `line`, with so many lines to go. -/
def dumpLines (dumpLine : UInt32 → Option (List UInt64)) : Nat → UInt32 → Option (List UInt64)
  | 0, _ => some []
  | lines + 1, line =>
    match dumpLine line with
    | none => none
    | some reads => (dumpLines dumpLine lines (line + 1)).map (reads ++ ·)

/-- Each line has the fuel for its words. -/
def miniKvmDumpMem (fuel : Nat) (memSize : Int64) (start stop : UInt64)
    (wordSize bytesPerLine : UInt32) : Dump :=
  if wordSize = 0 then .divides
  else
    let start := alignStart start wordSize
    let stop := alignEnd memSize stop wordSize
    if bytesPerLine = 0 then .divides
    else
      let dumpLine line :=
        WhileLoop.collect (wordStep start stop wordSize bytesPerLine line) fuel 0
      match dumpLines dumpLine (nbLines start stop bytesPerLine).toNat 0 with
      | none => .outOfFuel
      | some reads => .done reads

/-! ## status_handle_dump_mem -/

/-- The arguments that `mem_range` becomes. -/
def rangeStart (cmd : MiniKvmStatusCommand) : UInt64 := cmd.memRange[0].toUInt64

def rangeEnd (memSize : Int64) (cmd : MiniKvmStatusCommand) : UInt64 :=
  if cmd.memRange[1] = -1 then memSize.toUInt64 else cmd.memRange[1].toUInt64

def rangeWordSize (cmd : MiniKvmStatusCommand) : UInt32 := cmd.memRange[2].toUInt64.toUInt32

def rangeBytesPerLine (cmd : MiniKvmStatusCommand) : UInt32 := cmd.memRange[3].toUInt64.toUInt32

/-- `opens`: the standard output of the client can be opened. -/
def statusHandleDumpMem (fuel : Nat) (state : VMState) (memSize : Int64) (opens : Bool)
    (cmd : MiniKvmStatusCommand) : MiniKVMError × Dump :=
  if state ≠ .paused then (.statusCmdVmNotPaused, .done [])
  else if opens then
    (.success, miniKvmDumpMem fuel memSize (rangeStart cmd) (rangeEnd memSize cmd)
      (rangeWordSize cmd) (rangeBytesPerLine cmd))
  else (.internalError, .done [])

/-! ## The aligned range -/

theorem alignStart_toNat (start : UInt64) (wordSize : UInt32) :
    (alignStart start wordSize).toNat = start.toNat - start.toNat % wordSize.toNat := by
  have le : start % wordSize.toUInt64 ≤ start := by
    rw [UInt64.le_iff_toNat_le, UInt64.toNat_mod]
    exact Nat.mod_le _ _
  rw [alignStart, UInt64.toNat_sub_of_le _ _ le, UInt64.toNat_mod, UInt32.toNat_toUInt64]

/-- The least multiple of a word from here on. -/
def roundUp (stop wordSize : Nat) : Nat :=
  if stop % wordSize = 0 then stop else stop - stop % wordSize + wordSize

theorem roundUp_bounds {wordSize : Nat} (pos : 0 < wordSize) (stop : Nat) :
    stop ≤ roundUp stop wordSize ∧ roundUp stop wordSize < stop + wordSize := by
  have := Nat.mod_lt stop pos
  have := Nat.mod_le stop wordSize
  unfold roundUp
  split <;> omega

/-- An end inside guest memory is rounded up, or is the end of guest memory where that is before. -/
theorem alignEnd_toNat {memSize : Int64} {stop : UInt64} (wordSize : UInt32)
    (inside : (stop.toNat : Int) ≤ memSize.toInt) (small : wordSize.toNat < 2 ^ 31) :
    (alignEnd memSize stop wordSize).toNat = roundUp stop.toNat wordSize.toNat ∨
      (alignEnd memSize stop wordSize).toNat = memSize.toInt.toNat ∧
        memSize.toInt.toNat ≤ roundUp stop.toNat wordSize.toNat := by
  have below := memSize.toInt_lt
  have rest : (stop % wordSize.toUInt64).toNat = stop.toNat % wordSize.toNat := by
    rw [UInt64.toNat_mod, UInt32.toNat_toUInt64]
  have le := Nat.mod_le stop.toNat wordSize.toNat
  have rounded : (if stop % wordSize.toUInt64 = 0 then stop
      else stop - stop % wordSize.toUInt64 + wordSize.toUInt64).toNat =
        roundUp stop.toNat wordSize.toNat := by
    rw [roundUp, ← rest]
    split
    · next whole => rw [if_pos (by rw [whole]; rfl)]
    · next partly =>
      have some : ¬ (stop % wordSize.toUInt64).toNat = 0 := fun zero =>
        partly (UInt64.toNat_inj.mp zero)
      rw [if_neg some, UInt64.toNat_add,
        UInt64.toNat_sub_of_le _ _ (UInt64.le_iff_toNat_le.mpr (by rwa [rest])),
        UInt32.toNat_toUInt64]
      exact Nat.mod_eq_of_lt (by omega)
  unfold alignEnd
  dsimp only
  generalize (if stop % wordSize.toUInt64 = 0 then stop
    else stop - stop % wordSize.toUInt64 + wordSize.toUInt64) = upTo at rounded ⊢
  split
  · next cut =>
    right
    rw [Int64.lt_iff_toInt_lt] at cut
    have signed : upTo.toInt64.toInt =
        if 2 * upTo.toNat < 2 ^ 64 then (upTo.toNat : Int) else upTo.toNat - 2 ^ 64 :=
      BitVec.toInt_eq_toNat_cond _
    have positive : (0 : Int64) ≤ memSize := by
      rw [Int64.le_iff_toInt_le]
      exact Int.le_trans (Int.natCast_nonneg _) inside
    rw [Int64.toNat_toUInt64_of_le positive]
    refine ⟨rfl, ?_⟩
    rw [signed] at cut
    split at cut <;> omega
  · exact .inl rounded

end MiniKvm.Source.DumpMem
