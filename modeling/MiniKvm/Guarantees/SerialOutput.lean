import MiniKvm.Source.VcpuThread

/-!
# The serial output

What a vcpu thread puts on standard output against what the guest writes to port 0x3f8. One call of
write puts out one byte of each exit, and the log lines of the loop share standard output with the
guest unless the logger is kept from it.
-/
namespace MiniKvm.Guarantees.SerialOutput
open Source Source.VcpuThread

/-- A write of the guest to the serial port. -/
def Serial (run : KvmRun) : Prop := run.exit = .io true 0x3f8

instance (run : KvmRun) : Decidable (Serial run) := inferInstanceAs (Decidable (_ = _))

/-- The data of a serial write of single bytes, with its repetitions. -/
def serialData (run : KvmRun) : List UInt8 :=
  if Serial run ∧ run.io.size = 1 then
    (List.range run.io.count.toNat).map fun i => run.bytes (run.io.dataOffset.toNat + i)
  else []

/-- The thread after these exits. -/
def after (host : Host) (exits : List KvmRun) : Thread :=
  kvmVcpuThreadRun host .init (exits.map .exit)

/-- At every point up to the first exit that stops the VM, what is on standard output is what the
guest has written so far. -/
def Lossless (host : Host) (exits : List KvmRun) : Prop :=
  ∀ as bs, exits = as ++ bs → (∀ run ∈ as, run.shutsDown = false) →
    (after host as).out = as.flatMap serialData

/-- TRACE lines do not go to standard output. -/
def Quiet (host : Host) : Prop := host.level ≠ .trace ∨ host.toStdout = false

/-- The switch reports the exit in a TRACE line and goes on. -/
def Traced (run : KvmRun) : Prop := run.exit = .intr ∨ run.exit = .unknown ∨ run.exit = .other

/-- A serial write is one byte, and nothing is said about other exits. -/
structure Plain (host : Host) (run : KvmRun) : Prop where
  single : Serial run → run.io.size = 1 ∧ run.io.count = 1
  quiet : Traced run → Quiet host

theorem log_trace_eq_nil_iff (host : Host) (now : Nat) (text : String) :
    host.log now .trace text = [] ↔ Quiet host := by
  unfold Host.log Quiet
  cases host.level <;> cases host.toStdout <;> simp [LoggerLevel.ctorIdx]

theorem map_range_eq_singleton_iff (f : Nat → UInt8) (n : Nat) :
    (List.range n).map f = [f 0] ↔ n = 1 := by
  constructor
  · intro same
    simpa using congrArg List.length same
  · rintro rfl
    rfl

/-- The byte that is written is the data of the exit exactly where the data is one byte. -/
theorem serialData_eq_iff {run : KvmRun} (serial : Serial run) :
    [run.bytes run.io.dataOffset.toNat] = serialData run ↔
      run.io.size = 1 ∧ run.io.count = 1 := by
  have count : run.io.count.toNat = 1 ↔ run.io.count = 1 := by
    rw [← UInt32.toNat_inj]
    rfl
  unfold serialData
  by_cases size : run.io.size = 1
  · have one := map_range_eq_singleton_iff (fun i => run.bytes (run.io.dataOffset.toNat + i))
      run.io.count.toNat
    rw [if_pos ⟨serial, size⟩, eq_comm, ← count]
    simpa [size] using one
  · rw [if_neg fun both => size both.2]
    simp [size]

/-- What one exit adds to standard output is its data exactly where the exit is plain. -/
theorem switchExit_out (host : Host) {t : Thread} (survives : t.run.shutsDown = false) :
    ∃ written, (switchExit host t).out = t.out ++ written ∧
      (written = serialData t.run ↔ Plain host t.run) := by
  have traced {text : String} (kind : Traced t.run) (other : ¬ Serial t.run) :
      host.log t.now .trace text = serialData t.run ↔ Plain host t.run := by
    rw [serialData, if_neg fun both => other both.1, log_trace_eq_nil_iff]
    exact ⟨fun quiet => ⟨fun serial => absurd serial other, fun _ => quiet⟩,
      fun plain => plain.quiet kind⟩
  unfold KvmRun.shutsDown at survives
  unfold switchExit
  cases kind : t.run.exit with
  | hlt | shutdown | internalError | failEntry =>
    rw [kind] at survives
    cases survives
  | intr => exact ⟨_, rfl, traced (.inl kind) (by simp [Serial, kind])⟩
  | unknown => exact ⟨_, rfl, traced (.inr (.inl kind)) (by simp [Serial, kind])⟩
  | other => exact ⟨_, rfl, traced (.inr (.inr kind)) (by simp [Serial, kind])⟩
  | io out port =>
    have silent : ¬ Traced t.run := by simp [Traced, kind]
    rw [kind] at survives
    obtain ⟨direction, samePort⟩ := KvmRun.io_of_exit kind
    cases out with
    | false =>
      -- a read of the guest, which is not answered
      have other : ¬ Serial t.run := by simp [Serial, kind]
      have inward : t.run.io.direction ≠ kvmExitIoOut := by simpa using direction
      refine ⟨[], by simp [miniKvmHandleIo, inward], ?_⟩
      rw [serialData, if_neg fun both => other both.1]
      exact iff_of_true rfl ⟨fun serial => absurd serial other, fun kind => absurd kind silent⟩
    | true =>
      have outward : t.run.io.direction = kvmExitIoOut := by simpa using direction
      have serialPort : port = 0x3f8 := by
        by_contra otherPort
        simp [Server.ExitReason.shutsDown, Server.miniKvmHandleIo, otherPort] at survives
      subst serialPort
      refine ⟨[t.run.bytes t.run.io.dataOffset.toNat],
        by simp [miniKvmHandleIo, outward, ← samePort], ?_⟩
      rw [serialData_eq_iff kind]
      exact ⟨fun single => ⟨fun _ => single, fun kind => absurd kind silent⟩,
        fun plain => plain.single kind⟩

theorem after_append (host : Host) (as : List KvmRun) (run : KvmRun) :
    after host (as ++ [run]) = round host (after host as) (.exit run) := by
  rw [after, List.map_append, run_append]
  rfl

theorem after_running (host : Host) {as : List KvmRun} (goesOn : ∀ run ∈ as, run.shutsDown = false) :
    (after host as).state = .running := by
  refine (running_iff survived_init).mpr ⟨rfl, ?_⟩
  intro o member
  obtain ⟨run, before, rfl⟩ := List.mem_map.mp member
  exact goesOn run before

/-- One more exit, on a thread that runs. -/
theorem after_out (host : Host) {as : List KvmRun} {run : KvmRun}
    (goesOn : ∀ r ∈ as ++ [run], r.shutsDown = false) :
    ∃ written, (after host (as ++ [run])).out = (after host as).out ++ written ∧
      (written = serialData run ↔ Plain host run) := by
  have running := after_running host fun r before =>
    goesOn r (List.mem_append_left _ before)
  have survives := goesOn run (List.mem_append_right _ (List.mem_singleton_self run))
  rw [after_append, round_running running]
  exact switchExit_out host (t := { after host as with run := run }) survives

/-- The serial output is lossless exactly when every exit before the one that stops the VM is plain. -/
theorem serial_output_lossless_iff (host : Host) (exits : List KvmRun) :
    Lossless host exits ↔
      ∀ as run bs, exits = as ++ run :: bs → (∀ r ∈ as ++ [run], r.shutsDown = false) →
        Plain host run := by
  constructor
  · intro lossless as run bs split goesOn
    obtain ⟨written, adds, same⟩ := after_out host goesOn
    have before := lossless as (run :: bs) split fun r member =>
      goesOn r (List.mem_append_left _ member)
    have now := lossless (as ++ [run]) bs (by simp [split]) goesOn
    rw [adds, before, List.flatMap_append, List.flatMap_singleton] at now
    exact same.mp (List.append_cancel_left now)
  · intro plain as
    induction as using List.reverseRecOn with
    | nil =>
      intro bs _ _
      rfl
    | append_singleton as run ih =>
      intro bs split goesOn
      have split' : exits = as ++ run :: bs := by simpa using split
      have before := ih (run :: bs) split' fun r member =>
        goesOn r (List.mem_append_left _ member)
      obtain ⟨written, adds, same⟩ := after_out host goesOn
      rw [adds, before, same.mpr (plain as run bs split' goesOn), List.flatMap_append,
        List.flatMap_singleton]

/-- `rep outsb` of the two letters A and B. -/
def writesAB : KvmRun := ⟨2, ⟨1, 1, 0x3f8, 2, 0⟩, fun a => if a = 0 then 0x41 else 0x42⟩

theorem repeated_write_cut :
    (after .silent [writesAB]).out = [0x41] ∧ serialData writesAB = [0x41, 0x42] ∧
      ¬ Lossless .silent [writesAB] := by
  refine ⟨rfl, by decide, ?_⟩
  intro lossless
  have cut := lossless [writesAB] [] rfl (by decide)
  exact absurd cut (by decide)

end MiniKvm.Guarantees.SerialOutput
