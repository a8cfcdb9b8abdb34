import MiniKvm.Source.VcpuThread

/-!
# The logger

core/logger.c: the text of a line, and which calls the level lets through. The threads that share the
logger are in Source.LoggerThreads.
-/
namespace MiniKvm.Source.Logger
open VcpuThread (LoggerLevel)

/-! ## The text of a line -/

/-- `level_str`. It has no entry for LogDisable, and no macro logs at that level. -/
def levelStr : (lvl : LoggerLevel) → lvl ≠ .disable → List Char
  | .trace, _ => "TRACE".toList
  | .info, _ => "INFO ".toList
  | .warn, _ => "WARN ".toList
  | .error, _ => "ERROR".toList
  | .disable, named => absurd rfl named

/-- `'\e'`. -/
def escape : Char := .ofNat 27

/-- `level_color`, whose last entry is the reset. -/
def levelColor : LoggerLevel → List Char
  | .trace => escape :: "[1;34m".toList
  | .info => escape :: "[1;32m".toList
  | .warn => escape :: "[1;33m".toList
  | .error => escape :: "[1;31m".toList
  | .disable => escape :: "[0m".toList

/-- A call of log_log by one of the macros, with its message formatted. -/
structure LogCall where
  level : LoggerLevel
  named : level ≠ .disable
  file : List Char
  line : Nat
  message : List Char

theorem trace_named : LoggerLevel.trace ≠ .disable := nofun

/-- `TRACE(..)`. -/
def traceAt (file : List Char) (line : Nat) (message : List Char) : LogCall :=
  ⟨.trace, trace_named, file, line, message⟩

/-- The fields of `struct tm` that are printed; a leap second is second 60. -/
structure Tm where
  hour : Fin 24
  min : Fin 60
  sec : Fin 61
  deriving DecidableEq, Repr

def midnight : Tm := ⟨0, 0, 0⟩

def twoDigits (n : Nat) : List Char := [Nat.digitChar (n / 10), Nat.digitChar (n % 10)]

/-- `time_buf`, by `"%H:%M:%S"`. -/
def timeBuf (tm : Tm) : List Char :=
  twoDigits tm.hour ++ ':' :: (twoDigits tm.min ++ ':' :: twoDigits tm.sec)

/-- `level_buf`. -/
def levelBuf (enableColor : Bool) (c : LogCall) : List Char :=
  if enableColor then levelColor c.level ++ levelStr c.level c.named ++ levelColor .disable
  else levelStr c.level c.named

/-- `"[%s] %s %s:%d "`. -/
def metadata (enableColor : Bool) (tm : Tm) (c : LogCall) : List Char :=
  '[' :: (timeBuf tm ++ ']' :: ' ' :: (levelBuf enableColor c ++
    ' ' :: (c.file ++ ':' :: (Nat.toDigits 10 c.line ++ [' ']))))

/-- What the three prints of log_log write. -/
def logLine (enableColor : Bool) (tm : Tm) (c : LogCall) : List Char :=
  metadata enableColor tm c ++ c.message ++ ['\n']

/-- `lvl < state.level`. -/
def muted (level : LoggerLevel) (c : LogCall) : Bool := c.level.ctorIdx < level.ctorIdx

theorem levelStr_length (lvl : LoggerLevel) (named : lvl ≠ .disable) :
    (levelStr lvl named).length = 5 := by
  cases lvl with
  | disable => exact absurd rfl named
  | _ => rfl

theorem levelColor_length_le (lvl : LoggerLevel) : (levelColor lvl).length ≤ 7 := by
  cases lvl <;> decide

/-- Both buffers of log_log have room for their terminators. -/
theorem buffers_fit (enableColor : Bool) (tm : Tm) (c : LogCall) :
    (levelBuf enableColor c).length < 21 ∧ (timeBuf tm).length < 13 := by
  constructor
  · have text := levelStr_length c.level c.named
    have color := levelColor_length_le c.level
    have reset : (levelColor .disable).length = 4 := by decide
    unfold levelBuf
    split
    · simp only [List.length_append]
      omega
    · omega
  · simp [timeBuf, twoDigits]

end MiniKvm.Source.Logger
