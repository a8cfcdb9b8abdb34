import MiniKvm.Source.SocketPaths

/-!
# Where the socket of a run is

A run without a name makes its socket from null strings, and the length of a name is never compared with
the room in `sun_path`. Otherwise run and client agree.
-/
namespace MiniKvm.Guarantees.SocketAddresses
open Source Source.RunStages Source.SetupKvm RunArgs

/-- The path of the socket is made of strings and fits, and a name leads a client to it, the name of
this run alone. -/
structure Addressed (args : MiniKvmRunArgs) (kvm : Kvm) : Prop where
  fits : ∃ path, kvm.sunPath = some path ∧ path.length + 1 ≤ sunPathSize
  shared : ∀ name, args.name = some name → kvm.sunPath = some (ipcConnectPath name)
  distinct : ∀ name, kvm.sunPath = some (ipcConnectPath name) → args.name = some name

theorem sunPath_of_name {kvm : Kvm} {name : List Char} (named : kvm.name = some name) :
    kvm.sunPath = some (ipcConnectPath name) := by
  rw [ipcConnectPath_eq, VmPaths.sockPath]
  simp only [Kvm.sunPath, Kvm.fsPath, named, Option.map_some]

theorem sunPath_unnamed {kvm : Kvm} (unnamed : kvm.name = none) : kvm.sunPath = none := by
  simp only [Kvm.sunPath, Kvm.fsPath, unnamed, Option.map_none]

/-- Of the runs that get to their socket, those with a name of 1 to 43 bytes have a good address for
it. -/
theorem socket_addressed_iff (calls : RunCalls) (args : MiniKvmRunArgs)
    (reaches : (miniKvmRun calls args).Reaches) :
    Addressed args (miniKvmRun calls args).proc.kvm ↔
      ∃ name, args.name = some name ∧ 1 ≤ name.length ∧ name.length ≤ 43 := by
  have fields := run_name reaches
  generalize (miniKvmRun calls args).proc.kvm = kvm at fields
  have noPath (unnamed : kvm.name = none) : ¬ Addressed args kvm := by
    rintro ⟨⟨path, built, -⟩, -, -⟩
    rw [sunPath_unnamed unnamed] at built
    cases built
  match given : args.name with
  | none =>
    rw [given] at fields
    exact iff_of_false (noPath fields) (by simp)
  | some [] =>
    rw [given] at fields
    refine iff_of_false (noPath fields) ?_
    rintro ⟨name, same, long, -⟩
    cases same
    cases long
  | some (c :: rest) =>
    rw [given] at fields
    have built := sunPath_of_name fields
    have length := ipcConnectPath_length (c :: rest)
    constructor
    · rintro ⟨⟨path, same, fits⟩, -, -⟩
      rw [built] at same
      cases same
      refine ⟨c :: rest, rfl, by simp, ?_⟩
      rw [length, sunPathSize] at fits
      omega
    · rintro ⟨name, same, -, short⟩
      cases same
      refine ⟨⟨_, built, ?_⟩, ?_, ?_⟩
      · rw [length, sunPathSize]
        omega
      · intro name same
        rw [given] at same
        cases same
        exact built
      · intro name same
        rw [built] at same
        rw [given, ipcConnectPath_injective (Option.some.inj same)]

/-- A host on which all works. -/
def workingHost : RunCalls where
  parse := 0
  calloc := true
  intel := false
  setup := fun
    | .getApiVersion => Answer.of 12
    | _ => Answer.of 1
  vcpu := fun _ => ⟨true, Answer.of 0x1000, true, .success⟩
  configurePaging := .success
  loadKernel := .success
  fs := ⟨true, true, false, false, false, true⟩
  socket := ⟨true, true, true⟩
  start := .success
  first := .running
  rounds := []

def argsOf (name : Option (List Char)) : MiniKvmRunArgs :=
  ⟨name, false, 1, 0x10000000, 1, some [0xf4]⟩

theorem reaches_vm : (miniKvmRun workingHost (argsOf (some ['v', 'm']))).Reaches :=
  ⟨MiniKVMError.success.code, by decide⟩

theorem vm_addressed : Addressed (argsOf (some ['v', 'm']))
    (miniKvmRun workingHost (argsOf (some ['v', 'm']))).proc.kvm :=
  (socket_addressed_iff workingHost (argsOf (some ['v', 'm'])) reaches_vm).mpr
    ⟨['v', 'm'], rfl, by decide, by decide⟩

/-- Without a name, the path is built from null strings. -/
theorem unnamed_not_addressed : (miniKvmRun workingHost (argsOf none)).Reaches ∧
    (miniKvmRun workingHost (argsOf none)).proc.kvm.sunPath = none ∧
      ¬ Addressed (argsOf none) (miniKvmRun workingHost (argsOf none)).proc.kvm := by
  have null : (miniKvmRun workingHost (argsOf none)).proc.kvm.sunPath = none := by decide
  refine ⟨⟨MiniKVMError.success.code, by decide⟩, null, ?_⟩
  rintro ⟨⟨path, built, -⟩, -, -⟩
  rw [null] at built
  cases built

end MiniKvm.Guarantees.SocketAddresses
