import MiniKvm.Lib.LittleEndian
import MiniKvm.Source.Core

/-!
# The directory of a VM

init_filesystem (commands/run.c), and mini_kvm_open_vm_fs with mini_kvm_check_vm (core/core.c), for
one name and with nobody else at work. `kill` says for which pids `kill(pid, 0)` returns 0.
-/
namespace MiniKvm.Source.VmFiles
open Lib

/-- `MINI_KVM_FS_ROOT_PATH/name`, as far as the two functions look at it. The pidfile is its bytes. -/
inductive VmDir where
  | missing
  | present (pidfile : Option (List UInt8))
  deriving DecidableEq, Repr

/-! ## The pid -/

/-- The four bytes of an `int`. -/
def intBytes (v : Int32) : List UInt8 := LittleEndian.encode 4 v.toUInt32.toNat

def ofIntBytes (bytes : List UInt8) : Int32 := (UInt32.ofNat (LittleEndian.decode bytes)).toInt32

/-- `read(fd, &pid, sizeof(int))` at the start of a file, with `pid` what was there before. -/
def readInt (pid : Int32) (content : List UInt8) : Int32 :=
  ofIntBytes (LittleEndian.overwrite (intBytes pid) content)

theorem ofIntBytes_intBytes (v : Int32) : ofIntBytes (intBytes v) = v := by
  have small : v.toUInt32.toNat < 256 ^ 4 := v.toUInt32.toNat_lt
  rw [ofIntBytes, intBytes, LittleEndian.decode_encode_of_lt small, UInt32.ofNat_toNat,
    Int32.toInt32_toUInt32]

theorem readInt_nil (pid : Int32) : readInt pid [] = pid := by
  rw [readInt, LittleEndian.overwrite_nil, ofIntBytes_intBytes]

/-- A file of four bytes or more fills the number, whatever was there. -/
theorem readInt_of_length {content : List UInt8} (full : 4 ≤ content.length) (pid : Int32) :
    readInt pid content = ofIntBytes (content.take 4) := by
  have width : (intBytes pid).length = 4 := LittleEndian.length_encode _ _
  rw [readInt, LittleEndian.overwrite, width, List.drop_eq_nil_of_le (by omega), List.append_nil]

/-- What has been written whole is read back. -/
theorem readInt_intBytes (pid v : Int32) : readInt pid (intBytes v) = v := by
  have width : (intBytes v).length = 4 := LittleEndian.length_encode _ _
  rw [readInt_of_length (by omega), List.take_of_length_le (by omega), ofIntBytes_intBytes]

/-! ## init_filesystem -/

/-- The errors of init_filesystem, all MINI_KVM_FAILED_FS_SETUP, by their messages. -/
inductive FsError where
  /-- "failed to create %s (%s)" -/
  | noDirectory
  /-- "a virtual machine with the same name is already running" -/
  | alreadyRunning
  /-- "failed to create %s pidfile (%s)" -/
  | noPidfile
  deriving DecidableEq, Repr

/-- Whether mkdirat makes a missing directory, and whether the pidfile can be opened for writing. -/
structure FsCalls where
  (mkdirat createPidfile : Bool)
  deriving DecidableEq, Repr

/-- The end of init_filesystem: O_CREAT and O_TRUNC, then the pid. -/
def writePidfile (calls : FsCalls) (self : Int32) (pidfile : Option (List UInt8)) :
    Except FsError Unit × VmDir :=
  if calls.createPidfile then (.ok (), .present (some (intBytes self)))
  else (.error .noPidfile, .present pidfile)

/-- What init_filesystem returns and leaves. -/
def initFilesystem (calls : FsCalls) (kill : Int32 → Bool) (self : Int32) :
    VmDir → Except FsError Unit × VmDir
  | .missing =>
    if calls.mkdirat then writePidfile calls self none else (.error .noDirectory, .missing)
  | .present none => writePidfile calls self none
  | .present (some content) =>
    if kill (readInt 0 content) then (.error .alreadyRunning, .present (some content))
    else writePidfile calls self (some content)

/-! ## mini_kvm_check_vm -/

def miniKvmCheckVm (kill : Int32 → Bool) : VmDir → Int32
  | .missing => -1
  | .present none => -1
  | .present (some content) =>
    let bytesRead := min content.length 4
    if bytesRead ≤ 0 ∨ ¬ kill (readInt (-1) content) then -1 else MiniKVMError.success.code

end MiniKvm.Source.VmFiles
