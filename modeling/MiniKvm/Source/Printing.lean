import MiniKvm.Lib.Format
import MiniKvm.Source.Boot
import MiniKvm.Source.DumpText
import MiniKvm.Source.StatusRegs

/-!
# What is printed, character by character

The calls of dprintf in mini_kvm_dump_mem, mini_kvm_print_regs and mini_kvm_print_sregs (kvm/kvm.c), and
status_handle_command_result (commands/status.c), with what the formats of printf make of their
arguments.
-/
namespace MiniKvm.Source.Printing
open Lib.Format DumpText StatusRegs
open Boot (KvmRegs)

/-! ## Conversions of printf -/

/-- `%lu`. -/
def lu (n : Nat) : List Char := numeral 10 1 n

/-- `%02hx`. -/
def hx02 (v : UInt8) : List Char := numeral 16 2 v.toNat

/-- `%08lx`. -/
def lx08 (v : UInt64) : List Char := numeral 16 8 v.toNat

/-- `%016llx`. -/
def llx016 (v : UInt64) : List Char := numeral 16 16 v.toNat

/-! ## mini_kvm_dump_mem -/

def wordText (word : List UInt8) : List Char := word.flatMap hx02 ++ " ".toList

def lineText (line : Line) : List Char :=
  "0x".toList ++ lx08 line.label ++ "\t".toList ++ line.words.flatMap wordText ++ "\n".toList

def dumpText (text : Text) : List Char :=
  "mem dump: @".toList ++ lu text.start.toNat ++ " -> @".toList ++ lu text.stop.toNat ++ "\n".toList ++
    text.lines.flatMap lineText

/-! ## mini_kvm_print_regs and mini_kvm_print_sregs -/

def miniKvmPrintRegs (regs : KvmRegs) : List Char :=
  "rax 0x".toList ++ llx016 regs.rax ++ "\trbx 0x".toList ++ llx016 regs.rbx ++
    "\trcx 0x".toList ++ llx016 regs.rcx ++ "\trdx 0x".toList ++ llx016 regs.rdx ++ "\n".toList ++
  "r8  0x".toList ++ llx016 regs.r8 ++ "\tr9  0x".toList ++ llx016 regs.r9 ++
    "\tr10 0x".toList ++ llx016 regs.r10 ++ "\tr11 0x".toList ++ llx016 regs.r11 ++ "\n".toList ++
  "r12 0x".toList ++ llx016 regs.r12 ++ "\tr13 0x".toList ++ llx016 regs.r13 ++
    "\tr14 0x".toList ++ llx016 regs.r14 ++ "\tr15 0x".toList ++ llx016 regs.r15 ++ "\n".toList ++
  "rsp 0x".toList ++ llx016 regs.rsp ++ "\trbp 0x".toList ++ llx016 regs.rbp ++
    "\trip 0x".toList ++ llx016 regs.rip ++ "\trflags 0x".toList ++ llx016 regs.rflags ++ "\n".toList ++
  "rdi 0x".toList ++ llx016 regs.rdi ++ "\trsi 0x".toList ++ llx016 regs.rsi ++ "\n".toList

/-- The fields of `struct kvm_sregs` that are printed. -/
structure ControlRegs where
  (cr0 cr2 cr3 cr4 : UInt64)
  deriving DecidableEq, Repr

def miniKvmPrintSregs (sregs : ControlRegs) : List Char :=
  "cr0 0x".toList ++ llx016 sregs.cr0 ++ "\tcr2 0x".toList ++ llx016 sregs.cr2 ++
    "\tcr3 0x".toList ++ llx016 sregs.cr3 ++ "\tcr4 0x".toList ++ llx016 sregs.cr4 ++ "\n".toList

/-! ## status_handle_command_result -/

/-- `VM_STATE_STR`. -/
def miniKvmVmStateStr : VMState → List Char
  | .paused => "paused".toList
  | .running => "running".toList
  | .shutdown => "shutdown".toList

/-- A round of the loop over the vcpus. -/
def reportText (report : Report KvmRegs ControlRegs) : List Char :=
  "VCPU ".toList ++ lu report.index ++ " regs\n".toList ++ miniKvmPrintRegs report.regs ++
    "\n".toList ++ "VCPU ".toList ++ lu report.index ++ " sregs\n".toList ++
      miniKvmPrintSregs report.sregs

def notPausedText (name : List Char) : List Char :=
  "VM ".toList ++ name ++
    " is not paused, please pause the VM before sending request\n".toList

def statusHandleCommandResult (name : List Char) (res : MiniKvmStatusResult KvmRegs ControlRegs) :
    List Char :=
  if res.error ≠ .success then
    match res.error with
    | .statusCmdVmNotPaused => notPausedText name
    | _ => []
  else
    match res.cmdType with
    | .showState => name ++ " state: ".toList ++ miniKvmVmStateStr res.state ++ "\n".toList
    | .showRegs => (printRegs res).1.flatMap reportText
    | _ => []

/-- What mini_kvm_status prints of the replies to its commands. -/
def miniKvmStatusOutput (name : List Char)
    (replies : List (MiniKvmStatusResult KvmRegs ControlRegs)) : List Char :=
  replies.flatMap (statusHandleCommandResult name)

end MiniKvm.Source.Printing
