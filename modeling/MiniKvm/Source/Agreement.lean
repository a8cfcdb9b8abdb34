import MiniKvm.Source.CommandCalls
import MiniKvm.Source.Replies
import MiniKvm.Source.RunResources
import MiniKvm.Source.VmPaths

/-!
# Functions with two models

mini_kvm_add_vcpu, init_filesystem and the command handlers are modelled more than once, each time for
the part of what they do that matters there. Where two models look at the same part they agree.
-/
namespace MiniKvm.Source.Agreement
open Lib Lib.Resources

/-- What a function returns. -/
def returned {α : Type*} : Except MiniKVMError α → MiniKVMError
  | .ok _ => .success
  | .error e => e

/-! ## mini_kvm_add_vcpu, in the launch and as a stage of the run -/

/-- The same calls succeed. -/
structure SameCalls (calls : RunStages.VcpuCalls) (launch : Launch.VcpuCalls) (memSize : Int64) :
    Prop where
  createVcpu : calls.createVcpu = launch.createVcpu
  mmapSize : 0 < calls.mmapSize.val ↔ launch.getVcpuMmapSize = true
  mmap : calls.mmap = launch.mmap
  setupVcpu : calls.setupVcpu =
    (Boot.miniKvmSetupVcpu launch.ioctls memSize launch.vcpu Boot.bootloaderAddr).1

section Vcpus

variable {machine : Launch.Machine} {p : RunStages.Proc}

theorem stage_of_fine {calls : RunStages.VcpuCalls} (fine : calls.Fine) (p : RunStages.Proc) :
    (RunStages.miniKvmAddVcpu calls p).1 = .success ∧
      (RunStages.miniKvmAddVcpu calls p).2.kvm.vcpus.length = p.kvm.vcpus.length + 1 := by
  obtain ⟨made, sized, mapped, setup⟩ := fine
  have fd : ¬ (RunStages.Descriptors.openFd p.table true).1 < 0 := by simp
  have addr : ¬ (RunStages.Descriptors.mmap (RunStages.Descriptors.openFd p.table true).2
    true).1 = -1 := by simp
  simp [RunStages.miniKvmAddVcpu, made, mapped, setup, fd, addr, not_le.mpr sized]

theorem stage_of_bad {calls : RunStages.VcpuCalls} (bad : ¬ calls.Fine) (p : RunStages.Proc) :
    (RunStages.miniKvmAddVcpu calls p).1 = .failedVcpuCreation := by
  unfold RunStages.miniKvmAddVcpu
  dsimp only
  split_ifs with fd size addr setup
  case neg =>
    refine absurd ⟨?_, not_le.mp size, ?_, not_not.mp setup⟩ bad
    · simpa using fd
    · simpa using addr
  all_goals rfl

theorem addVcpu_agrees {calls : RunStages.VcpuCalls} {launch : Launch.VcpuCalls}
    (same : SameCalls calls launch machine.memSize) (p : RunStages.Proc) :
    (RunStages.miniKvmAddVcpu calls p).1 = returned (Launch.miniKvmAddVcpu launch machine) ∧
      ∀ machine', Launch.miniKvmAddVcpu launch machine = .ok machine' →
        machine'.memSize = machine.memSize ∧
          machine'.vcpus.length = machine.vcpus.length + 1 ∧
            (RunStages.miniKvmAddVcpu calls p).2.kvm.vcpus.length = p.kvm.vcpus.length + 1 := by
  obtain ⟨createVcpu, mmapSize, mmap, setupVcpu⟩ := same
  unfold Launch.miniKvmAddVcpu
  split
  · next checked =>
    obtain ⟨made, sized, mapped⟩ := checked
    split
    · next vcpu setup =>
      have fine : calls.Fine :=
        ⟨createVcpu.trans made, mmapSize.mpr sized, mmap.trans mapped, setupVcpu.trans (by rw [setup])⟩
      obtain ⟨ret, grown⟩ := stage_of_fine fine p
      refine ⟨ret, ?_⟩
      rintro machine' ⟨⟩
      exact ⟨rfl, by simp, grown⟩
    · next other =>
      refine ⟨stage_of_bad (fun fine => ?_) p, by simp⟩
      exact other _ (Prod.ext (setupVcpu.symm.trans fine.setupVcpu) rfl)
  · next unchecked =>
    refine ⟨stage_of_bad (fun fine => unchecked ?_) p, by simp⟩
    exact ⟨createVcpu.symm.trans fine.createVcpu, mmapSize.mp fine.mmapSize, mmap.symm.trans fine.mmap⟩

theorem addVcpu_error {launch : Launch.VcpuCalls} {e : MiniKVMError}
    (failed : Launch.miniKvmAddVcpu launch machine = .error e) : e = .failedVcpuCreation := by
  unfold Launch.miniKvmAddVcpu at failed
  split at failed
  · split at failed <;> cases failed
    rfl
  · cases failed
    rfl

/-- The loops over the vcpus end alike. -/
theorem addVcpus_agree {calls : Nat → RunStages.VcpuCalls} {launch : Nat → Launch.VcpuCalls}
    (same : ∀ k, SameCalls (calls k) (launch k) machine.memSize)
    (alike : p.kvm.vcpus.length = machine.vcpus.length) (count : Nat) :
    (RunStages.addVcpus calls count p).1 = returned (Launch.addVcpus launch count machine) := by
  induction count generalizing p machine with
  | zero => rfl
  | succ count ih =>
    obtain ⟨ret, grown⟩ := addVcpu_agrees (same machine.vcpus.length) p
    rw [RunStages.addVcpus, Launch.addVcpus, alike]
    generalize RunStages.miniKvmAddVcpu (calls machine.vcpus.length) p = stage at ret grown
    obtain ⟨e, q⟩ := stage
    cases added : Launch.miniKvmAddVcpu (launch machine.vcpus.length) machine with
    | error failure =>
      cases addVcpu_error added
      rw [added] at ret
      cases ret
      rfl
    | ok machine' =>
      rw [added] at ret
      change e = .success at ret
      subst ret
      obtain ⟨memSize, here, there⟩ := grown machine' added
      exact ih (fun k => memSize ▸ same k) (there.trans (by rw [alike, here]))

end Vcpus

/-! ## init_filesystem, on the directory of the VM and as a stage of the run -/

/-- What a run finds that comes to init_filesystem with this directory. -/
def fsCalls (calls : VmFiles.FsCalls) (kill : Int32 → Bool) (rootDir : Bool) (dir : VmFiles.VmDir) :
    RunStages.FsCalls where
  rootDir := rootDir
  openDir := if dir = .missing then calls.mkdirat else true
  fsExists := dir ≠ .missing
  oldPidfile := match dir with
    | .present (some _) => true
    | _ => false
  running := match dir with
    | .present (some content) => kill (VmFiles.readInt 0 content)
    | _ => false
  newPidfile := calls.createPidfile

/-- Each fails where the other does. -/
theorem initFilesystem_agrees (calls : VmFiles.FsCalls) (kill : Int32 → Bool) (self : Int32)
    (rootDir : Bool) (dir : VmFiles.VmDir) {p : RunStages.Proc} {owned : List RunStages.Resource}
    (stdin : .fd 0 ∈ p.table.live) (owns : Owns p.table owned) :
    (RunStages.initFilesystem (fsCalls calls kill rootDir dir) p).1 = .success ↔
      (VmFiles.initFilesystem calls kill self dir).1 = .ok () := by
  rw [(RunStages.owns_initFilesystem stdin owns).1]
  have fine_iff : (fsCalls calls kill rootDir dir).Fine ↔
      (fsCalls calls kill rootDir dir).openDir = true ∧
        ¬ ((fsCalls calls kill rootDir dir).fsExists = true ∧
          (fsCalls calls kill rootDir dir).oldPidfile = true ∧
            (fsCalls calls kill rootDir dir).running = true) ∧
          (fsCalls calls kill rootDir dir).newPidfile = true :=
    ⟨fun fine => ⟨fine.openDir, fine.free, fine.newPidfile⟩,
      fun ⟨openDir, free, newPidfile⟩ => ⟨openDir, free, newPidfile⟩⟩
  rw [fine_iff]
  obtain ⟨mkdirat, createPidfile⟩ := calls
  cases dir with
  | missing =>
    cases mkdirat <;> cases createPidfile <;>
      simp [fsCalls, VmFiles.initFilesystem, VmFiles.writePidfile]
  | present pidfile =>
    cases pidfile with
    | none => cases createPidfile <;> simp [fsCalls, VmFiles.initFilesystem, VmFiles.writePidfile]
    | some content =>
      cases running : kill (VmFiles.readInt 0 content) <;> cases createPidfile <;>
        simp [fsCalls, VmFiles.initFilesystem, VmFiles.writePidfile, running]

/-! ## init_filesystem, in a file tree and on the directory of the VM -/

section Paths

open VmPaths

/-- The directory of the VM in the tree, where there is nothing else under its name. -/
def vmDir (t : FileTree Name) (dir : List Name) (name : Name) : Option VmFiles.VmDir :=
  match t.lookup dir, t.lookup (dir ++ [pidfileName name]) with
  | none, none => some .missing
  | some .dir, none => some (.present none)
  | some .dir, some (.file content) => some (.present (some content))
  | _, _ => none

variable {kill : Int32 → Bool} {self : Int32} {name : Name} {t : FileTree Name} {root : List Name}

theorem lookup_of_present {dir : List Name} {pidfile : Option (List UInt8)}
    (here : vmDir t dir name = some (.present pidfile)) : t.lookup dir = some .dir ∧
      t.lookup (dir ++ [pidfileName name]) = pidfile.map .file := by
  unfold vmDir at here
  split at here <;> cases here
  · next isDir nothing => exact ⟨isDir, nothing⟩
  · next isDir file => exact ⟨isDir, file⟩

variable (self) in
/-- The part of init_filesystem behind mkdirat. -/
theorem pidfile_written {dir : List Name} {pidfile : Option (List UInt8)} (plain : Plain name)
    (here : vmDir t dir name = some (.present pidfile)) :
    t.openRead dir (steps (pidfileName name)) = pidfile ∧
      ∃ after, t.writeFile (VmFiles.intBytes self) dir (steps (pidfileName name)) = some after ∧
        vmDir after dir name = some (.present (some (VmFiles.intBytes self))) := by
  obtain ⟨isDir, file⟩ := lookup_of_present here
  have below : t.resolve true dir [.down (pidfileName name)] = some (dir ++ [pidfileName name]) := by
    refine FileTree.resolve_down (FileTree.resolve_nil t true dir) isDir (fun {_ _} link => ?_) true
    rw [file] at link
    cases pidfile <;> cases link
  rw [steps_of_plain (plain_pidfileName plain), FileTree.openRead, FileTree.stat,
    FileTree.writeFile, below, Option.bind_some, Option.bind_some, file]
  refine ⟨by cases pidfile <;> rfl, t.put (dir ++ [pidfileName name])
    (.file (VmFiles.intBytes self)), by cases pidfile <;> rfl, ?_⟩
  rw [vmDir, FileTree.lookup_put_self (by simp), FileTree.lookup_put_of_ne (by simp), isDir]

/-- mkdirat makes the directory where it is missing. -/
theorem directory_made (plain : Plain name) (isDir : t.lookup root = some .dir)
    {dir : VmFiles.VmDir} (here : vmDir t (root ++ [name]) name = some dir) :
    ((t.make .dir root (steps name)).getD t).openDir root (steps name) = some (root ++ [name]) ∧
      vmDir ((t.make .dir root (steps name)).getD t) (root ++ [name]) name =
        some (.present (match dir with | .missing => none | .present pidfile => pidfile)) := by
  have opens {u : FileTree Name} (there : u.lookup root = some .dir)
      (isDir : u.lookup (root ++ [name]) = some .dir) :
      u.openDir root [.down name] = some (root ++ [name]) := by
    have leads := FileTree.resolve_down (FileTree.resolve_nil u true root) there
      (n := name) (by simp [isDir]) true
    rw [FileTree.openDir, ← List.nil_append [Step.down name], leads]
    exact if_pos isDir
  have below : t.resolve false root [.down name] = some (root ++ [name]) :=
    FileTree.resolve_append_down_of_dir (FileTree.resolve_nil t false root) isDir name
  rw [steps_of_plain plain, FileTree.make, below, Option.bind_some]
  cases dir with
  | missing =>
    obtain ⟨nothing, noFile⟩ : t.lookup (root ++ [name]) = none ∧
        t.lookup (root ++ [name] ++ [pidfileName name]) = none := by
      unfold vmDir at here
      split at here <;> cases here
      next nothing noFile => exact ⟨nothing, noFile⟩
    have itself := FileTree.lookup_put_self (t := t) (p := root ++ [name]) (by simp) .dir
    rw [if_pos nothing, Option.getD_some]
    refine ⟨opens ?_ itself, ?_⟩
    · rwa [FileTree.lookup_put_of_ne (by simp)]
    · rw [vmDir, itself, FileTree.lookup_put_of_ne (by simp), noFile]
  | present pidfile =>
    obtain ⟨there, -⟩ := lookup_of_present here
    rw [if_neg (by simp [there]), Option.getD_none]
    exact ⟨opens isDir there, here⟩

/-- For a plain name, where the root directory is one. -/
theorem paths_agree (plain : Plain name) (leads : t.resolve true [] (steps rootPath) = some root)
    (isDir : t.lookup root = some .dir) {dir : VmFiles.VmDir}
    (here : vmDir t (root ++ [name]) name = some dir) :
    (VmPaths.initFilesystem kill self name t).1 =
        (VmFiles.initFilesystem ⟨true, true⟩ kill self dir).1 ∧
      vmDir (VmPaths.initFilesystem kill self name t).2 (root ++ [name]) name =
        some (VmFiles.initFilesystem ⟨true, true⟩ kill self dir).2 := by
  have rootThere : t.stat [] (steps rootPath) ≠ none := by
    rw [FileTree.stat, leads]
    simp [isDir]
  have noLink : ∀ {absolute target},
      t.lookup (root ++ [name]) ≠ some (.link absolute target) := by
    intro absolute target link
    simp [vmDir, link] at here
  have stat : t.stat [] (steps (fsPath name)) = t.lookup (root ++ [name]) := by
    rw [FileTree.stat, steps_fsPath, steps_of_plain plain, FileTree.resolve_down leads isDir noLink]
    rfl
  have openRoot : t.openDir [] (steps rootPath) = some root := by
    rw [FileTree.openDir, leads]
    simp [isDir]
  obtain ⟨opens, made⟩ := directory_made plain isDir here
  obtain ⟨read, after, written, final⟩ := pidfile_written self plain made
  unfold VmPaths.initFilesystem
  simp only [if_neg rootThere, stat, openRoot, startAt_of_plain plain,
    startAt_of_plain (plain_pidfileName plain), Option.bind_some, opens, read, written]
  cases dir with
  | missing => exact ⟨rfl, final⟩
  | present pidfile =>
    have there : t.lookup (root ++ [name]) ≠ none := by simp [(lookup_of_present here).1]
    cases pidfile with
    | none => exact ⟨rfl, final⟩
    | some content =>
      cases running : kill (VmFiles.readInt 0 content) with
      | false =>
        simp only [decide_eq_true there, running, VmFiles.initFilesystem, VmFiles.writePidfile]
        exact ⟨rfl, final⟩
      | true =>
        simp only [decide_eq_true there, running, VmFiles.initFilesystem]
        exact ⟨rfl, made⟩

end Paths

/-! ## The handlers, access by access and as functions -/

section Handlers

open Server CommandCalls

variable {n fuel : Nat} {host : Host n} {cmd : MiniKvmStatusCommand} {s t u : State n}

/-- What the handlers read and store of Kvm, and of the result but for its registers. -/
structure Shown where
  state : VMState
  paused : UInt64
  reported : VMState

def shown (s : State n) : Shown := ⟨s.kvm.state, s.kvm.paused, s.res.state⟩

/-- What accesses come to, one after the other, with what the function returns. -/
def perform (host : Host n) (cmd : MiniKvmStatusCommand) (ret : MiniKVMError) :
    List (Op n) → Shown → MiniKVMError × Shown
  | [], k => (ret, k)
  | .storeState v :: rest, k => perform host cmd ret rest { k with state := v }
  | .storePaused v :: rest, k => perform host cmd ret rest { k with paused := v }
  | .readState :: rest, k => perform host cmd ret rest { k with reported := k.state }
  | .ifPaused :: rest, k => if k.paused = 0 then (ret, k) else perform host cmd ret rest k
  | .unlessPausedReturn :: rest, k =>
    if k.state = .paused then perform host cmd ret rest k else (.statusCmdVmNotPaused, k)
  | .getRegs i :: rest, k =>
    if host.regs i then perform host cmd ret rest k else (.internalError, k)
  | .dumpMem :: rest, k =>
    if host.opens cmd.pid then perform host cmd ret rest k else (.internalError, k)
  | _ :: rest, k => perform host cmd ret rest k

/-- A step of the main thread inside of a command. -/
theorem perform_step {e : Event n} {ret : MiniKVMError} {op : Op n} {rest : List (Op n)}
    (own : ofMain e = true) (at_ : t.main = .exec (.command cmd) ret (op :: rest))
    (h : callStep fuel host t e = some u) :
    ∃ ret' rest', u.main = .exec (.command cmd) ret' rest' ∧
      perform host cmd ret' rest' (shown u) = perform host cmd ret (op :: rest) (shown t) := by
  have inCall : InCall cmd t := .inl ⟨op :: rest, ret, at_⟩
  cases call_cases inCall h with
  | @op ret' op' rest' at_' effect next own answered =>
    rw [at_] at at_'
    cases at_'
    have state := effect.state
    have paused := effect.paused
    have res := effect.res
    cases op with
    | ifPaused =>
      by_cases unset : t.kvm.paused = 0
      · refine ⟨ret, [], by simpa [Op.next, unset] using next, ?_⟩
        simp [perform, shown, state, paused, res, unset]
      · refine ⟨ret, rest, by simpa [Op.next, unset] using next, ?_⟩
        simp [perform, shown, state, paused, res, unset]
    | unlessPausedReturn =>
      by_cases here : t.kvm.state = .paused
      · refine ⟨ret, rest, by simpa [Op.next, here] using next, ?_⟩
        simp [perform, shown, state, paused, res, here]
      · refine ⟨.statusCmdVmNotPaused, [], by simpa [Op.next, here] using next, ?_⟩
        simp [perform, shown, state, paused, res, here]
    | getRegs | dumpMem =>
      refine ⟨ret, rest, next, ?_⟩
      simp_all [perform, shown, answers]
    | _ =>
      refine ⟨ret, rest, next, ?_⟩
      simp [perform, shown, state, paused, res]
  | fails at_' query only own refused =>
    rw [at_] at at_'
    cases at_'
    refine ⟨.internalError, [], by rw [only], ?_⟩
    cases op <;> simp_all [perform, shown, answers]
  | returns at_' => simp [at_] at at_'
  | crashes at_' event => simp [event, ofMain] at own
  | vcpus of => cases e <;> simp_all [ofMain, ofVcpus]

theorem not_own_past (cmd : MiniKvmStatusCommand) {e : Event n} (past : t.main = .replying)
    (own : ofMain e = true) : callStep fuel host t e ≠ some u := by
  intro h
  have inCall : InCall cmd t := .inr past
  cases call_cases inCall h with
  | op at_ | fails at_ | returns at_ | crashes at_ => simp [past] at at_
  | vcpus of => cases e <;> simp_all [ofMain, ofVcpus]

/-- A command that nothing comes between returns what its accesses come to. -/
theorem perform_run {ret : MiniKVMError} {ops : List (Op n)} {es : List (Event n)}
    (own : ∀ e ∈ es, ofMain e = true) (at_ : t.main = .exec (.command cmd) ret ops)
    (reaches : (calls fuel host).run t es = some u) (over_ : u.main = .replying) :
    shown u = (perform host cmd ret ops (shown t)).2 ∧
      u.res.error = (perform host cmd ret ops (shown t)).1 ∧
        u.res.cmdType = cmd.type ∧ u.res.vcpus = cmd.vcpus := by
  induction es generalizing t ret ops with
  | nil =>
    cases reaches
    simp [at_] at over_
  | cons e es ih =>
    obtain ⟨first, others⟩ := List.forall_mem_cons.mp own
    obtain ⟨v, moves, rest⟩ := (calls fuel host).run_cons.mp reaches
    cases ops with
    | cons op ops =>
      obtain ⟨ret', ops', at_', same⟩ := perform_step first at_ moves
      rw [← same]
      exact ih others at_' rest
    | nil =>
      have inCall : InCall cmd t := .inl ⟨[], ret, at_⟩
      have returns : v = finish t ret (.command cmd) := by
        cases call_cases inCall moves with
        | returns at_' event result =>
          rw [at_] at at_'
          cases at_'
          exact result
        | op at_' | fails at_' | crashes at_' => simp [at_] at at_'
        | vcpus of => cases e <;> simp_all [ofMain, ofVcpus]
      have past : v.main = .replying := by
        rw [returns]
        rfl
      cases es with
      | nil =>
        cases rest
        rw [returns]
        exact ⟨rfl, rfl, rfl, rfl⟩
      | cons e' es =>
        obtain ⟨w, moves', -⟩ := (calls fuel host).run_cons.mp rest
        exact absurd moves' (not_own_past cmd past (others e' List.mem_cons_self))

theorem perform_kills (sig : VMSignal) (ret : MiniKVMError) (rest : List (Op n)) (k : Shown) :
    perform host cmd ret (miniKvmSendSig sig ++ rest) k = perform host cmd ret rest k := by
  unfold miniKvmSendSig
  induction List.finRange n with
  | nil => rfl
  | cons i is ih => exact ih

theorem perform_getRegs (is : List (Fin n)) (ret : MiniKVMError) (k : Shown) :
    perform host cmd ret (is.map .getRegs) k =
      if ∀ i ∈ is, host.regs i = true then (ret, k) else (.internalError, k) := by
  induction is with
  | nil => simp [perform]
  | cons i is ih =>
    rw [List.map_cons, perform, ih]
    cases answered : host.regs i <;> simp [answered]

section Regs

open StatusRegs

variable {R S : Type*}

/-- Both ioctls on the vcpu are answered. -/
def answered (vcpu : StatusRegs.VCpu R S) : Bool := vcpu.regs.isSome && vcpu.sregs.isSome

theorem handleRegsFrom_agrees (mask : UInt64) (index : Nat) (vcpus : List (StatusRegs.VCpu R S))
    (res : MiniKvmStatusResult R S) : (handleRegsFrom mask index vcpus res).res.state = res.state ∧
      (handleRegsFrom mask index vcpus res).ret =
        if ∀ p ∈ vcpus.zipIdx index, vcpuSelected mask p.2 = true → answered p.1 = true then .success
        else .internalError := by
  induction vcpus generalizing index res with
  | nil => simp [handleRegsFrom]
  | cons vcpu rest ih =>
    rw [handleRegsFrom, List.zipIdx_cons]
    by_cases selected : vcpuSelected mask index = true
    · obtain ⟨regs, sregs⟩ := vcpu
      cases regs with
      | none => simp [selected, answered]
      | some regs =>
        cases sregs with
        | none => simp [selected, answered]
        | some sregs =>
          obtain ⟨state, ret⟩ := ih (index + 1) { res with
            regs := res.regs.set 0 regs (by decide), sregs := res.sregs.set 0 sregs (by decide) }
          rw [if_pos selected]
          refine ⟨state, ret.trans (if_congr ?_ rfl rfl)⟩
          simp [selected, answered]
    · obtain ⟨state, ret⟩ := ih (index + 1) res
      rw [if_neg selected]
      refine ⟨state, ret.trans (if_congr ?_ rfl rfl)⟩
      simp [selected]

theorem regs_agree {vcpus : List (StatusRegs.VCpu R S)} (length : vcpus.length = n)
    (regs : ∀ (i : Fin n) vcpu, vcpus[i.val]? = some vcpu → host.regs i = answered vcpu)
    (mask : UInt64) :
    (∀ i ∈ (List.finRange n).filter fun i => vcpuSelected mask i.val, host.regs i = true) ↔
      ∀ p ∈ vcpus.zipIdx, vcpuSelected mask p.2 = true → answered p.1 = true := by
  constructor
  · rintro all ⟨vcpu, i⟩ member selected
    have at_ : vcpus[i]? = some vcpu := List.mem_zipIdx_iff_getElem?.mp member
    obtain ⟨inside, -⟩ := List.getElem?_eq_some_iff.mp at_
    rw [← regs ⟨i, length ▸ inside⟩ vcpu at_]
    exact all _ (by simpa using selected)
  · intro all i member
    have inside : i.val < vcpus.length := length ▸ i.isLt
    have at_ : vcpus[i.val]? = some vcpus[i.val] := List.getElem?_eq_getElem inside
    rw [regs i _ at_]
    exact all (vcpus[i.val], i.val) (List.mem_zipIdx_iff_getElem?.mpr at_) (by simpa using member)

/-- The two models of the handlers on what they have in common. -/
theorem handlers_perform {k : Replies.Kvm R S} (length : k.vcpus.length = n)
    (regs : ∀ (i : Fin n) vcpu, k.vcpus[i.val]? = some vcpu → host.regs i = answered vcpu)
    (cmd : MiniKvmStatusCommand) (res : MiniKvmStatusResult R S) :
    perform host cmd .success (handlers cmd) ⟨k.state, k.paused, res.state⟩ =
      ((Replies.handlers (host.opens cmd.pid) k cmd res).ret,
        ⟨(Replies.handlers (host.opens cmd.pid) k cmd res).kvm.state,
          (Replies.handlers (host.opens cmd.pid) k cmd res).kvm.paused,
          (Replies.handlers (host.opens cmd.pid) k cmd res).res.state⟩) := by
  unfold handlers Replies.handlers
  cases cmd.type with
  | none => rfl
  | showState => rfl
  | pause => exact perform_kills _ _ _ _
  | resume => exact perform_kills _ _ _ _
  | shutdown =>
    refine (perform_kills _ _ _ _).trans ?_
    by_cases unset : k.paused = 0 <;>
      simp [perform, miniKvmResumeVm, Replies.statusHandleShutdown, Replies.miniKvmResumeVm, unset]
  | dumpMem =>
    by_cases paused : k.state = .paused <;> cases opens : host.opens cmd.pid <;>
      simp [perform, statusHandleDumpMem, Replies.statusHandleDumpMem, paused, opens]
  | showRegs =>
    by_cases paused : k.state = .paused
    · obtain ⟨state, ret⟩ := handleRegsFrom_agrees cmd.vcpus 0 k.vcpus res
      simp only [Server.statusHandleRegs, perform, perform_getRegs, Replies.statusHandleRegs,
        StatusRegs.statusHandleRegs, paused, if_true, state, ret, regs_agree length regs]
      split <;> rfl
    · simp [Server.statusHandleRegs, perform, Replies.statusHandleRegs, StatusRegs.statusHandleRegs,
        paused]

/-- A command that comes to its return with nothing in between leaves what the function makes of it. -/
theorem command_agrees {k : Replies.Kvm R S} (length : k.vcpus.length = n)
    (regs : ∀ (i : Fin n) vcpu, k.vcpus[i.val]? = some vcpu → host.regs i = answered vcpu)
    {res : MiniKvmStatusResult R S} (same : shown s = ⟨k.state, k.paused, res.state⟩)
    {es : List (Event n)} (own : ∀ e ∈ es, ofMain e = true)
    (reaches : (calls fuel host).run (begun cmd s) es = some t) (past : t.main = .replying) :
    let after := Replies.miniKvmStatusHandleCommand (host.opens cmd.pid) cmd ⟨k, res⟩
    shown t = ⟨after.kvm.state, after.kvm.paused, after.res.state⟩ ∧
      t.res.error = after.res.error ∧ t.res.cmdType = after.res.cmdType ∧
        t.res.vcpus = after.res.vcpus := by
  obtain ⟨final, error, type, vcpus⟩ := perform_run own rfl reaches past
  have text : perform host cmd .success (Server.miniKvmStatusHandleCommand cmd) (shown (begun cmd s)) =
      perform host cmd .success (handlers cmd) ⟨k.state, k.paused, res.state⟩ := by
    rw [← same]
    rfl
  rw [text, handlers_perform length regs] at final error
  exact ⟨final, error, type, vcpus⟩

end Regs

end Handlers

end MiniKvm.Source.Agreement
