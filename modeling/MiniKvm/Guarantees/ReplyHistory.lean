import MiniKvm.Source.Replies

/-!
# Does a reply depend on more than Kvm?

The header of a reply is filled by every command, `state` by SHOW_STATE only, and the first slots of
`regs` and `sregs` by SHOW_REGS only, as far as its loop gets. What a command does not fill is what
the last one that did has left.
-/
namespace MiniKvm.Guarantees.ReplyHistory
open Source Source.Replies
open Source.StatusRegs hiding statusHandleRegs

variable {R S : Type*}

/-! ## What a command puts into the result -/

/-- The registers the loop of status_handle_regs reads, from vcpu `k` on. -/
def regsRead (mask : UInt64) : Nat → List (VCpu R S) → List R
  | _, [] => []
  | k, vcpu :: rest =>
    if vcpuSelected mask k then
      match vcpu.regs with
      | none => []
      | some regs => regs :: if vcpu.sregs.isSome then regsRead mask (k + 1) rest else []
    else regsRead mask (k + 1) rest

/-- The special registers it reads; those of a vcpu are read after its registers. -/
def sregsRead (mask : UInt64) : Nat → List (VCpu R S) → List S
  | _, [] => []
  | k, vcpu :: rest =>
    if vcpuSelected mask k then
      match vcpu.regs, vcpu.sregs with
      | some _, some sregs => sregs :: sregsRead mask (k + 1) rest
      | _, _ => []
    else sregsRead mask (k + 1) rest

def fillsState (kvm : Kvm R S) (cmd : MiniKvmStatusCommand) : List VMState :=
  if cmd.type = .showState then [kvm.state] else []

def fillsRegs (kvm : Kvm R S) (cmd : MiniKvmStatusCommand) : List R :=
  if cmd.type = .showRegs ∧ kvm.state = .paused then regsRead cmd.vcpus 0 kvm.vcpus else []

def fillsSregs (kvm : Kvm R S) (cmd : MiniKvmStatusCommand) : List S :=
  if cmd.type = .showRegs ∧ kvm.state = .paused then sregsRead cmd.vcpus 0 kvm.vcpus else []

/-- The Kvm a command leaves; the result has no part in it. -/
def kvmAfter (kvm : Kvm R S) (cmd : MiniKvmStatusCommand) : Kvm R S :=
  match cmd.type with
  | .pause => miniKvmPauseVm { kvm with state := .paused }
  | .resume => miniKvmResumeVm { kvm with state := .running }
  | .shutdown =>
    if kvm.paused ≠ 0 then miniKvmResumeVm { kvm with state := .shutdown }
    else { kvm with state := .shutdown }
  | _ => kvm

/-- What the commands of a history put into a field, in order. -/
def observed {α : Type*} (fills : Kvm R S → MiniKvmStatusCommand → List α) :
    Kvm R S → List (Happening R S) → List α
  | _, [] => []
  | _, .elsewhere kvm :: rest => observed fills kvm rest
  | kvm, .command cmd _ :: rest => fills kvm cmd ++ observed fills (kvmAfter kvm cmd) rest

/-- The last of some values, or what was there before. -/
def latest {α : Type*} (before : α) (values : List α) : α := values.foldl (fun _ b => b) before

@[simp] theorem latest_nil {α : Type*} (a : α) : latest a [] = a := rfl

@[simp] theorem latest_cons {α : Type*} (a b : α) (l : List α) : latest a (b :: l) = latest b l :=
  rfl

theorem latest_append {α : Type*} (a : α) (l m : List α) :
    latest a (l ++ m) = latest (latest a l) m :=
  List.foldl_append

theorem latest_append_eq_iff {α : Type*} {a : α} {l l' m : List α} :
    latest a (l ++ m) = latest a (l' ++ m) ↔ m ≠ [] ∨ latest a l = latest a l' := by
  rw [latest_append, latest_append]
  cases m with
  | nil => simp
  | cons b m => simp

/-! ## The buffer -/

/-- An array with some values stored in its first slot, one after the other. -/
def slotZero {α : Type*} (v : Vector α miniKvmMaxVcpus) (values : List α) :
    Vector α miniKvmMaxVcpus :=
  values.foldl (fun v a => v.setIfInBounds 0 a) v

@[simp] theorem slotZero_nil {α : Type*} (v : Vector α miniKvmMaxVcpus) : slotZero v [] = v := rfl

theorem slotZero_append {α : Type*} (v : Vector α miniKvmMaxVcpus) (l m : List α) :
    slotZero (slotZero v l) m = slotZero v (l ++ m) :=
  List.foldl_append.symm

theorem slotZero_cons {α : Type*} (v : Vector α miniKvmMaxVcpus) (a : α) (l : List α) :
    slotZero v (a :: l) = slotZero (v.set 0 a (by decide)) l := by
  have inBounds : v.setIfInBounds 0 a = v.set 0 a (by decide) := by
    ext i bound
    rw [Vector.getElem_setIfInBounds bound, Vector.getElem_set]
  rw [← inBounds]
  rfl

/-- Only the last value is left. -/
theorem slotZero_eq {α : Type*} (v : Vector α miniKvmMaxVcpus) (values : List α) :
    slotZero v values = v.set 0 (latest v[0] values) (by decide) := by
  induction values generalizing v with
  | nil => simp
  | cons a rest ih => simp [slotZero_cons, ih]

theorem slotZero_zeros_inj {α : Type*} {a : α} {l m : List α} :
    slotZero (.replicate miniKvmMaxVcpus a) l = slotZero (.replicate miniKvmMaxVcpus a) m ↔
      latest a l = latest a m := by
  constructor
  · intro same
    have first : ∀ values,
        (slotZero (.replicate miniKvmMaxVcpus a) values)[0] = latest a values := by
      simp [slotZero_eq]
    rw [← first l, ← first m, same]
  · intro same
    simp [slotZero_eq, same]

/-- A result in which three fields have been filled. -/
def fill (res : MiniKvmStatusResult R S) (states : List VMState) (regs : List R) (sregs : List S) :
    MiniKvmStatusResult R S :=
  { res with
    state := latest res.state states
    regs := slotZero res.regs regs
    sregs := slotZero res.sregs sregs }

theorem handleRegsFrom_res (mask : UInt64) (k : Nat) (vcpus : List (VCpu R S))
    (res : MiniKvmStatusResult R S) :
    (handleRegsFrom mask k vcpus res).res =
      fill res [] (regsRead mask k vcpus) (sregsRead mask k vcpus) := by
  induction vcpus generalizing k res with
  | nil => simp [handleRegsFrom, regsRead, sregsRead, fill]
  | cons vcpu rest ih =>
    simp only [handleRegsFrom, regsRead, sregsRead]
    by_cases selected : vcpuSelected mask k = true
    · simp only [if_pos selected]
      cases regs : vcpu.regs with
      | none => simp [fill]
      | some r =>
        cases sregs : vcpu.sregs with
        | none => simp [fill, slotZero_cons]
        | some s =>
          simp only [Handled.preceded, ih, fill, slotZero_cons, Option.isSome_some, if_true]
    · simp only [if_neg selected, Handled.preceded, ih]

/-- What the loop returns does not depend on what was in the result. -/
theorem handleRegsFrom_ret (mask : UInt64) (k : Nat) (vcpus : List (VCpu R S))
    (res res' : MiniKvmStatusResult R S) :
    (handleRegsFrom mask k vcpus res).ret = (handleRegsFrom mask k vcpus res').ret := by
  induction vcpus generalizing k res res' with
  | nil => rfl
  | cons vcpu rest ih =>
    simp only [handleRegsFrom]
    by_cases selected : vcpuSelected mask k = true
    · simp only [if_pos selected]
      cases vcpu.regs with
      | none => rfl
      | some r =>
        cases vcpu.sregs with
        | none => rfl
        | some s => exact ih _ _ _
    · simp only [if_neg selected]
      exact ih _ _ _

/-! ## One command -/

theorem handlers_kvm (opens : Bool) (kvm : Kvm R S) (cmd : MiniKvmStatusCommand)
    (res : MiniKvmStatusResult R S) : (handlers opens kvm cmd res).kvm = kvmAfter kvm cmd := by
  unfold handlers kvmAfter
  cases cmd.type with
  | dumpMem =>
    simp only [statusHandleDumpMem]
    split
    · rfl
    · split <;> rfl
  | _ => rfl

theorem handlers_ret (opens : Bool) (kvm : Kvm R S) (cmd : MiniKvmStatusCommand)
    (res res' : MiniKvmStatusResult R S) :
    (handlers opens kvm cmd res).ret = (handlers opens kvm cmd res').ret := by
  unfold handlers
  cases cmd.type with
  | showRegs =>
    simp only [statusHandleRegs, StatusRegs.statusHandleRegs]
    split
    · exact handleRegsFrom_ret _ _ _ _ _
    · rfl
  | dumpMem =>
    simp only [statusHandleDumpMem]
    split
    · rfl
    · split <;> rfl
  | _ => rfl

theorem handlers_res (opens : Bool) (kvm : Kvm R S) (cmd : MiniKvmStatusCommand)
    (res : MiniKvmStatusResult R S) : (handlers opens kvm cmd res).res =
      fill res (fillsState kvm cmd) (fillsRegs kvm cmd) (fillsSregs kvm cmd) := by
  have kept : res = fill res [] [] [] := by simp [fill]
  unfold handlers fillsState fillsRegs fillsSregs
  cases type : cmd.type with
  | showRegs =>
    simp only [statusHandleRegs, StatusRegs.statusHandleRegs]
    by_cases paused : kvm.state = .paused
    · simp [paused, handleRegsFrom_res]
    · simpa [paused] using kept
  | showState => simp [statusHandleCmdState, fill]
  | dumpMem =>
    simp only [statusHandleDumpMem]
    split
    · simpa using kept
    · split <;> simpa using kept
  | _ =>
    simpa [statusHandleNone, statusHandlePause, statusHandleResume, statusHandleShutdown] using kept

/-! ## Histories -/

theorem after_fields (s : Server R S) (history : List (Happening R S)) :
    (s.after history).res.state = latest s.res.state (observed fillsState s.kvm history) ∧
      (s.after history).res.regs = slotZero s.res.regs (observed fillsRegs s.kvm history) ∧
      (s.after history).res.sregs = slotZero s.res.sregs (observed fillsSregs s.kvm history) := by
  induction history generalizing s with
  | nil => simp [Server.after, observed]
  | cons happening rest ih =>
    cases happening with
    | elsewhere kvm => exact ih { s with kvm }
    | command cmd opens =>
      obtain ⟨state, regs, sregs⟩ := ih (miniKvmStatusHandleCommand opens cmd s)
      simp only [Server.after, List.foldl_cons, Replies.Server.step, observed] at state regs sregs ⊢
      rw [state, regs, sregs]
      simp only [miniKvmStatusHandleCommand, handlers_kvm, handlers_res, fill, slotZero_append,
        latest_append, and_self]

/-- The reply to a command, at the end of a history. -/
def reply [Zero R] [Zero S] (kvm : Kvm R S) (history : List (Happening R S))
    (cmd : MiniKvmStatusCommand) (opens : Bool) : MiniKvmStatusResult R S :=
  (miniKvmStatusHandleCommand opens cmd (Server.after ⟨kvm, zeroed⟩ history)).res

/-- Each field that is not filled for every command is filled for this one, or was last filled with
the same value in both histories (or in neither). -/
structure Indistinct [Zero R] [Zero S] (kvm kvm' : Kvm R S) (history history' : List (Happening R S))
    (current : Kvm R S) (cmd : MiniKvmStatusCommand) : Prop where
  state : cmd.type = .showState ∨ latest .paused (observed fillsState kvm history) =
    latest .paused (observed fillsState kvm' history')
  regs : fillsRegs current cmd ≠ [] ∨ latest 0 (observed fillsRegs kvm history) =
    latest 0 (observed fillsRegs kvm' history')
  sregs : fillsSregs current cmd ≠ [] ∨ latest 0 (observed fillsSregs kvm history) =
    latest 0 (observed fillsSregs kvm' history')

theorem reply_eq [Zero R] [Zero S] (kvm : Kvm R S) (history : List (Happening R S))
    (cmd : MiniKvmStatusCommand) (opens : Bool) {current : Kvm R S}
    (now : (Server.after ⟨kvm, zeroed⟩ history).kvm = current) :
    reply kvm history cmd opens =
      ⟨cmd.type, (handlers opens current cmd zeroed).ret, cmd.vcpus,
        slotZero (.replicate _ 0) (observed fillsRegs kvm history ++ fillsRegs current cmd),
        slotZero (.replicate _ 0) (observed fillsSregs kvm history ++ fillsSregs current cmd),
        latest .paused (observed fillsState kvm history ++ fillsState current cmd)⟩ := by
  obtain ⟨state, regs, sregs⟩ := after_fields ⟨kvm, zeroed⟩ history
  simp only [reply, miniKvmStatusHandleCommand, handlers_res, fill, now, state, regs, sregs,
    slotZero_append, ← latest_append]
  rw [handlers_ret opens current cmd _ zeroed]
  rfl

/-- Two histories that lead to the same Kvm get the same reply to a command exactly where every field
of it is filled now, or was left the same by both. -/
theorem replies_eq_iff [Zero R] [Zero S] (kvm kvm' current : Kvm R S)
    (history history' : List (Happening R S)) (cmd : MiniKvmStatusCommand) (opens : Bool)
    (now : (Server.after ⟨kvm, zeroed⟩ history).kvm = current)
    (now' : (Server.after ⟨kvm', zeroed⟩ history').kvm = current) :
    reply kvm history cmd opens = reply kvm' history' cmd opens ↔
      Indistinct kvm kvm' history history' current cmd := by
  have shown : fillsState current cmd ≠ [] ↔ cmd.type = .showState := by
    simp [fillsState]
  rw [reply_eq kvm history cmd opens now, reply_eq kvm' history' cmd opens now']
  simp only [MiniKvmStatusResult.mk.injEq, true_and, slotZero_zeros_inj, latest_append_eq_iff, shown]
  constructor
  · rintro ⟨regs, sregs, state⟩
    exact ⟨state, regs, sregs⟩
  · rintro ⟨state, regs, sregs⟩
    exact ⟨regs, sregs, state⟩

/-! ## Two pairs of histories -/

/-- One vcpu with the registers 7 and 8. -/
def running : Kvm Nat Nat := ⟨.running, 0, [⟨some 7, some 8⟩]⟩

def pause : Happening Nat Nat := .command { type := .pause } true

def showRegs : Happening Nat Nat := .command { type := .showRegs, vcpus := 1 } true

theorem sameRegs_replies_eq :
    reply running [pause, showRegs] { type := .showState } true =
      reply running [pause, showRegs, showRegs] { type := .showState } true :=
  (replies_eq_iff running running ⟨.paused, 1, [⟨some 7, some 8⟩]⟩ [pause, showRegs]
    [pause, showRegs, showRegs] { type := .showState } true rfl rfl).mpr
    ⟨.inl rfl, .inr rfl, .inr rfl⟩

/-- A client that asks for the state gets the registers another one has asked for. -/
theorem registersLeak_replies_ne : ¬ ∀ (kvm kvm' : Kvm Nat Nat)
    (history history' : List (Happening Nat Nat)) (cmd : MiniKvmStatusCommand) (opens : Bool),
    (Server.after ⟨kvm, zeroed⟩ history).kvm = (Server.after ⟨kvm', zeroed⟩ history').kvm →
    reply kvm history cmd opens = reply kvm' history' cmd opens := by
  intro claimed
  have same := claimed running running [pause] [pause, showRegs] { type := .showState } true rfl
  have leaked := ((replies_eq_iff running running ⟨.paused, 1, [⟨some 7, some 8⟩]⟩ [pause]
    [pause, showRegs] { type := .showState } true rfl rfl).mp same).regs
  exact absurd leaked (by decide)

end MiniKvm.Guarantees.ReplyHistory
