import MiniKvm.Lib.ByteMem
import MiniKvm.Lib.Getopt
import MiniKvm.Source.Strings

/-!
# run_parse_args

The options of the run command (commands/run.c, commands/run.h). `*args` is its bytes, as the x86-64
ABI lays MiniKvmRunArgs out, and each option stores through its own pointer. What malloc returns is
the number of the block, from 1, and an `fseek` on the NULL of a failed fopen ends the program.
-/
namespace MiniKvm.Source.RunArgs
open Lib Lib.Getopt Strings

def optsDef : Spec where
  optstring := "l::v:d:m:n:k:h".toList
  longopts := [⟨"name".toList, .required, 'n'⟩, ⟨"log".toList, .optional, 'l'⟩,
    ⟨"help".toList, .none, 'h'⟩, ⟨"vcpu".toList, .required, 'v'⟩,
    ⟨"disk".toList, .required, 'd'⟩, ⟨"mem".toList, .required, 'm'⟩,
    ⟨"kernel".toList, .required, 'k'⟩]

/-! ## -m -/

def alignedToPages (memSize : UInt64) : UInt64 :=
  if memSize % .ofNat pageSize = 0 then memSize
  else memSize - memSize % .ofNat pageSize + .ofNat pageSize

/-- The switch of parse_mem, on the text from the last character on. -/
def unitScale : List Char → Option UInt64
  | 'K' :: _ => some 10
  | 'M' :: _ => some 20
  | 'G' :: _ => some 30
  | unit => if miniKvmIsUint unit 1 then some 0 else none

/-- `offset`: the unit is not a part of the number. -/
def unitLength (scale : UInt64) : UInt32 := if scale ≠ 0 then 1 else 0

/-- What parse_mem returns, leaves in `*mem`, and leaves in `errno`. -/
structure ParsedMem where
  ret : Int32
  mem : UInt64
  errno : Int
  deriving DecidableEq, Repr

def parseMem (arg : List Char) (mem : UInt64) (errno : Int) : ParsedMem :=
  let argLen : UInt32 := .ofNat arg.length
  if argLen = 0 then ⟨-1, mem, errno⟩
  else
    match unitScale (arg.drop (argLen - 1).toNat) with
    | none => ⟨MiniKVMError.argsFailed.code, mem, errno⟩
    | some scale =>
      let n := (argLen - unitLength scale).toNat
      if miniKvmIsUint arg n then
        let read := miniKvmToUint arg n mem errno
        ⟨MiniKVMError.success.code, alignedToPages (read.dst <<< scale), read.errno⟩
      else ⟨-1, mem, errno⟩

/-! ## The struct and the heap -/

structure MiniKvmRunArgs where
  name : Option (List Char)
  logEnabled : Bool
  vcpu : Nat
  memSize : Nat
  kernelSize : Nat
  kernelCode : Option (List UInt8)
  deriving DecidableEq

def nameOffset : Nat := 0
def logEnabledOffset : Nat := 8
def vcpuOffset : Nat := 12
def memSizeOffset : Nat := 16
def kernelSizeOffset : Nat := 24
def kernelCodeOffset : Nat := 32

/-- A block from malloc, with what was copied there. -/
inductive Block where
  | text (chars : List Char)
  | code (bytes : List UInt8)
  deriving DecidableEq

def blockAt (heap : List Block) (pointer : Nat) : Option Block :=
  if pointer = 0 then none else heap[pointer - 1]?

def Block.chars? : Block → Option (List Char)
  | .text chars => some chars
  | .code _ => none

def Block.bytes? : Block → Option (List UInt8)
  | .text _ => none
  | .code bytes => some bytes

/-- The variables of run_parse_args and what it changes outside. -/
structure Parsing where
  /-- `*args`. -/
  image : ByteMem
  heap : List Block
  /-- The arguments of logger_set_output, in order. -/
  outputs : List (List Char)
  errno : Int
  ret : Int32

/-- `*args`, read through its pointers. -/
def Parsing.args (p : Parsing) : MiniKvmRunArgs where
  name := (blockAt p.heap (p.image.load nameOffset 8)).bind Block.chars?
  logEnabled := p.image.load logEnabledOffset 1 ≠ 0
  vcpu := p.image.load vcpuOffset 4
  memSize := p.image.load memSizeOffset 8
  kernelSize := p.image.load kernelSizeOffset 8
  kernelCode := (blockAt p.heap (p.image.load kernelCodeOffset 8)).bind Block.bytes?

/-! ## The cases of the switch -/

/-- The characters that strncpy copies: `name_len` is 32 bits wide, and so is `name_len + 1`. -/
def copiedName (optarg : List Char) : List Char :=
  optarg.take (UInt32.ofNat optarg.length + 1).toNat

def Parsing.storeName (p : Parsing) (optarg : List Char) : Parsing :=
  { p with
    image := p.image.store nameOffset 8 (p.heap.length + 1)
    heap := p.heap ++ [.text (copiedName optarg)] }

def Parsing.enableLog (p : Parsing) (optarg : Option (List Char)) : Parsing :=
  { p with image := p.image.store logEnabledOffset 1 1, outputs := p.outputs ++ optarg.toList }

def Parsing.storeMem (p : Parsing) (optarg : List Char) : Parsing :=
  let parsed := parseMem optarg (.ofNat (p.image.load memSizeOffset 8)) p.errno
  { p with
    image := p.image.store memSizeOffset 8 parsed.mem.toNat
    errno := parsed.errno
    ret := parsed.ret }

/-- The number goes through `(uint64_t *)&args->vcpu`. -/
def Parsing.storeVcpu (p : Parsing) (optarg : List Char) : Parsing :=
  let read :=
    miniKvmToUint optarg optarg.length (.ofNat (p.image.load vcpuOffset 8)) p.errno
  { p with
    image := p.image.store vcpuOffset 8 read.dst.toNat
    errno := read.errno
    ret := if miniKvmIsUint optarg optarg.length then p.ret else MiniKVMError.argsFailed.code }

def Parsing.storeKernel (p : Parsing) (file : List UInt8) : Parsing :=
  { p with
    image := (p.image.store kernelSizeOffset 8 file.length).store kernelCodeOffset 8
      (p.heap.length + 1)
    heap := p.heap ++ [.code file] }

def Parsing.fail (p : Parsing) : Parsing := { p with ret := MiniKVMError.argsFailed.code }

/-- The switch, `none` where the program crashes. `files` is what fopen finds under a path. -/
def handle (files : List Char → Option (List UInt8)) (p : Parsing) : Event → Option Parsing
  | .bad => some p.fail
  | .option c optarg =>
    match c with
    | 'n' => optarg.map p.storeName
    | 'l' => some (p.enableLog optarg)
    | 'm' => optarg.map p.storeMem
    | 'v' => optarg.map p.storeVcpu
    | 'k' => (optarg.bind files).map p.storeKernel
    | 'h' => some p.fail
    | _ => some p

/-- The loop, which stops on MINI_KVM_ARGS_FAILED and on nothing else. -/
def handleAll (files : List Char → Option (List UInt8)) (p : Parsing) :
    List Event → Option Parsing
  | [] => some p
  | e :: rest =>
    match handle files p e with
    | none => none
    | some p =>
      if p.ret = MiniKVMError.argsFailed.code then some p else handleAll files p rest

/-- The default of one vcpu, behind the loop. -/
def Parsing.defaultVcpu (p : Parsing) : Parsing :=
  let vcpu := p.image.load vcpuOffset 4
  { p with image := p.image.store vcpuOffset 4 (if vcpu = 0 then 1 else vcpu) }

/-- `MiniKvmRunArgs args = {0}` in mini_kvm_run. -/
def zeroed (errno : Int) : Parsing := ⟨fun _ => 0, [], [], errno, 0⟩

def runParseArgs (files : List Char → Option (List UInt8)) (argv : List (List Char))
    (p : Parsing) : Option Parsing :=
  (handleAll files p (getoptLong optsDef argv.tail)).map Parsing.defaultVcpu

/-! ## What each case does to the fields -/

theorem parseMem_ret (arg : List Char) (mem mem' : UInt64) (errno errno' : Int) :
    (parseMem arg mem errno).ret = (parseMem arg mem' errno').ret := by
  simp only [parseMem]
  split
  · rfl
  · split
    · rfl
    · split <;> rfl

/-- The size that parse_mem reads does not depend on what was there, nor on `errno`. -/
theorem parseMem_mem {arg : List Char} {mem : UInt64} {errno : Int}
    (accepted : (parseMem arg mem errno).ret = 0) (mem' : UInt64) (errno' : Int) :
    (parseMem arg mem errno).mem = (parseMem arg mem' errno').mem := by
  simp only [parseMem] at accepted ⊢
  split at accepted
  · cases accepted
  · next nonempty =>
    rw [if_neg nonempty, if_neg nonempty]
    split at accepted
    · cases accepted
    · split at accepted
      · next number =>
        rw [if_pos number, if_pos number]
        dsimp only
        rw [miniKvmToUint_dst number, miniKvmToUint_dst number]
      · cases accepted

theorem blockAt_append {heap : List Block} {pointer : Nat} (b : Block)
    (inside : pointer ≤ heap.length) : blockAt (heap ++ [b]) pointer = blockAt heap pointer := by
  unfold blockAt
  split
  · rfl
  · rw [List.getElem?_append_left (by omega)]

theorem blockAt_new (heap : List Block) (b : Block) :
    blockAt (heap ++ [b]) (heap.length + 1) = some b := by
  simp [blockAt]

variable {p : Parsing} {optarg : List Char}

theorem args_storeName (room : p.heap.length + 1 < 2 ^ 64)
    (kernel : p.image.load kernelCodeOffset 8 ≤ p.heap.length) :
    (p.storeName optarg).args = { p.args with name := some (copiedName optarg) } := by
  have pointer : (p.storeName optarg).image.load nameOffset 8 = p.heap.length + 1 :=
    ByteMem.load_store_of_lt (by simpa using room)
  have apart (addr n : Nat) (behind : nameOffset + 8 ≤ addr) :
      (p.storeName optarg).image.load addr n = p.image.load addr n :=
    ByteMem.load_store_of_disjoint (.inr behind)
  have heap : (p.storeName optarg).heap = p.heap ++ [.text (copiedName optarg)] := rfl
  simp only [Parsing.args, pointer, heap, blockAt_new, blockAt_append _ kernel,
    apart logEnabledOffset 1 (by decide), apart vcpuOffset 4 (by decide),
    apart memSizeOffset 8 (by decide), apart kernelSizeOffset 8 (by decide),
    apart kernelCodeOffset 8 (by decide)]
  rfl

theorem args_enableLog (file : Option (List Char)) :
    (p.enableLog file).args = { p.args with logEnabled := true } := by
  have flag : (p.enableLog file).image.load logEnabledOffset 1 = 1 :=
    ByteMem.load_store_of_lt (by decide)
  have apart (addr n : Nat) (beside : addr + n ≤ logEnabledOffset ∨ logEnabledOffset + 1 ≤ addr) :
      (p.enableLog file).image.load addr n = p.image.load addr n :=
    ByteMem.load_store_of_disjoint beside
  simp only [Parsing.args, flag, apart nameOffset 8 (by decide), apart vcpuOffset 4 (by decide),
    apart memSizeOffset 8 (by decide), apart kernelSizeOffset 8 (by decide),
    apart kernelCodeOffset 8 (by decide)]
  rfl

theorem args_storeMem (accepted : (parseMem optarg 0 0).ret = 0) :
    (p.storeMem optarg).args = { p.args with memSize := (parseMem optarg 0 0).mem.toNat } := by
  have size : (p.storeMem optarg).image.load memSizeOffset 8 = (parseMem optarg 0 0).mem.toNat := by
    rw [parseMem_mem accepted (.ofNat (p.image.load memSizeOffset 8)) p.errno]
    exact ByteMem.load_store_of_lt (UInt64.toNat_lt _)
  have apart (addr n : Nat) (beside : addr + n ≤ memSizeOffset ∨ memSizeOffset + 8 ≤ addr) :
      (p.storeMem optarg).image.load addr n = p.image.load addr n :=
    ByteMem.load_store_of_disjoint beside
  simp only [Parsing.args, size, apart nameOffset 8 (by decide),
    apart logEnabledOffset 1 (by decide), apart vcpuOffset 4 (by decide),
    apart kernelSizeOffset 8 (by decide), apart kernelCodeOffset 8 (by decide)]
  rfl

/-- The store for `-v` covers `vcpu` and the low half of `mem_size` behind it. -/
theorem args_storeVcpu (number : miniKvmIsUint optarg optarg.length = true) :
    (p.storeVcpu optarg).args = { p.args with
      vcpu := (strtoul optarg 0).value.toNat % 2 ^ 32
      memSize := (strtoul optarg 0).value.toNat / 2 ^ 32 + 2 ^ 32 * (p.args.memSize / 2 ^ 32) } := by
  have wide : (strtoul optarg 0).value.toNat / 256 ^ 4 < 256 ^ 4 :=
    Nat.div_lt_of_lt_mul (UInt64.toNat_lt _)
  have stored : (p.storeVcpu optarg).image = (p.image.store vcpuOffset 4
      (strtoul optarg 0).value.toNat).store memSizeOffset 4
        ((strtoul optarg 0).value.toNat / 256 ^ 4) := by
    rw [← miniKvmToUint_dst number (.ofNat (p.image.load vcpuOffset 8)) p.errno]
    exact ByteMem.store_add p.image vcpuOffset 4 4 _
  have vcpu : (p.storeVcpu optarg).image.load vcpuOffset 4 =
      (strtoul optarg 0).value.toNat % 256 ^ 4 := by
    rw [stored, ByteMem.load_store_of_disjoint (.inl (by decide)), ByteMem.load_store]
  have size : (p.storeVcpu optarg).image.load memSizeOffset 8 =
      (strtoul optarg 0).value.toNat / 256 ^ 4 + 256 ^ 4 * p.image.load (memSizeOffset + 4) 4 := by
    rw [stored, ByteMem.load_add _ memSizeOffset 4 4, ByteMem.load_store_of_lt wide,
      ByteMem.load_store_of_disjoint (.inr (by decide)),
      ByteMem.load_store_of_disjoint (.inr (by decide))]
  have high : p.image.load memSizeOffset 8 / 256 ^ 4 = p.image.load (memSizeOffset + 4) 4 := by
    rw [ByteMem.load_add _ memSizeOffset 4 4, Nat.add_mul_div_left _ _ (by decide),
      Nat.div_eq_of_lt (ByteMem.load_lt _ _ _), Nat.zero_add]
  have apart (addr n : Nat) (beside : addr + n ≤ vcpuOffset ∨ memSizeOffset + 4 ≤ addr) :
      (p.storeVcpu optarg).image.load addr n = p.image.load addr n :=
    ByteMem.load_store_of_disjoint beside
  simp only [Parsing.args, size, vcpu, ← high, apart nameOffset 8 (by decide),
    apart logEnabledOffset 1 (by decide), apart kernelSizeOffset 8 (by decide),
    apart kernelCodeOffset 8 (by decide)]
  rfl

theorem args_defaultVcpu :
    p.defaultVcpu.args = { p.args with vcpu := if p.args.vcpu = 0 then 1 else p.args.vcpu } := by
  have bound : p.image.load vcpuOffset 4 < 256 ^ 4 := ByteMem.load_lt _ _ _
  have vcpu : p.defaultVcpu.image.load vcpuOffset 4 =
      if p.image.load vcpuOffset 4 = 0 then 1 else p.image.load vcpuOffset 4 :=
    ByteMem.load_store_of_lt (by split <;> omega)
  have apart (addr n : Nat) (beside : addr + n ≤ vcpuOffset ∨ vcpuOffset + 4 ≤ addr) :
      p.defaultVcpu.image.load addr n = p.image.load addr n :=
    ByteMem.load_store_of_disjoint beside
  simp only [Parsing.args, vcpu, apart nameOffset 8 (by decide),
    apart logEnabledOffset 1 (by decide), apart memSizeOffset 8 (by decide),
    apart kernelSizeOffset 8 (by decide), apart kernelCodeOffset 8 (by decide)]
  rfl

end MiniKvm.Source.RunArgs
