import MiniKvm.Guarantees.CommandHazards
import MiniKvm.Guarantees.MemoryDump
import MiniKvm.Source.CommandCalls

/-!
# Is any command handled or refused?

Nothing is refused: `handlers` is indexed by what has come from the socket, PAUSE takes `pause_lock`
while it may be owned, KVM_GET_REGS waits for a vcpu inside KVM_RUN, and DUMP_MEM divides by sizes of
the request. What does return has released the lock, says what it returns, and has left the Kvm alone
where that is an error.
-/
namespace MiniKvm.Guarantees.AnyCommand
open Lib Lib.Sync Source Source.CommandCalls MemoryDump CommandHazards
open Source.Server hiding miniKvmStatusHandleCommand
open Source.DumpMem hiding statusHandleDumpMem

variable {n : Nat} {fuel : Nat} {host : Host n} {cmd : MiniKvmStatusCommand} {s t u : State n}
variable {e : Event n}

/-- The call that has begun on the Kvm of `s`, and is at `u`, comes back whatever the vcpus do: nothing
ends the process, the main thread never waits for another thread, and it has only so many steps to
make. It returns with `kvm->lock` released and what it returns in the reply; and an error leaves the Kvm
as the vcpus alone have made it. -/
structure ComesBack (fuel : Nat) (host : Host n) (s u : State n) : Prop where
  goesOn : ∀ es t, (calls fuel host).run u es = some t → t.main ≠ .replying →
    t.killed = false ∧ ∃ e v, ofMain e = true ∧ callStep fuel host t e = some v
  bounded : ∃ most, ∀ es t, (calls fuel host).run u es = some t → es.countP ofMain ≤ most
  returns : ∀ es t e v type ret, (calls fuel host).run u es = some t →
    callStep fuel host t e = some v → label t e = some (.returned type ret) →
      v.kvm.lock.owner = none ∧ v.res.error = ret ∧
        (ret ≠ .success → ∃ w, (system n).run s (es.filter ofVcpus) = some w ∧ v.kvm = w.kvm)

/-- The call runs the handler of its type, and comes back from it. -/
def Handled (host : Host n) (s : State n) (raw : RawCommand) : Prop :=
  ∃ u, miniKvmStatusHandleCommand raw s = some u ∧ ∃ fuel, ComesBack fuel host s u

/-! ## The condition -/

/-- The registers of the vcpu are read, when none could not be read before it. -/
def Asked (host : Host n) (cmd : MiniKvmStatusCommand) (i : Fin n) : Prop :=
  vcpuSelected cmd.vcpus i.val = true ∧
    ∀ j < i, vcpuSelected cmd.vcpus j.val = true → host.regs j = true

/-- A query on a paused VM has a failure to report. -/
def Reports (host : Host n) (cmd : MiniKvmStatusCommand) : Prop :=
  (cmd.type = .showRegs ∧ ∃ i : Fin n, vcpuSelected cmd.vcpus i.val = true ∧ host.regs i = false) ∨
    (cmd.type = .dumpMem ∧ host.opens cmd.pid = false)

/-- Nothing keeps the command from coming back. -/
structure Unhindered (host : Host n) (s : State n) (cmd : MiniKvmStatusCommand) : Prop where
  signals : Armed cmd s
  pause : cmd.type = .pause → Quiet s
  log : s.kvm.state = .paused → Reports host cmd → host.logs = true
  regs : cmd.type = .showRegs → s.kvm.state = .paused → ∀ i, Asked host cmd i → ¬ MayRun s i
  dump : cmd.type = .dumpMem → s.kvm.state = .paused → host.opens cmd.pid = true →
    Harmless host.memSize cmd

/-! ## The program text -/

theorem pause_of_lockPause (member : (.lockPause : Op n) ∈ handlers cmd) : cmd.type = .pause := by
  cases kind : cmd.type with
  | pause => rfl
  | _ =>
    simp [handlers, kind, statusHandleNone, statusHandleResume, statusHandleShutdown,
      statusHandleCmdState, statusHandleRegs, statusHandleDumpMem, miniKvmResumeVm,
      mem_miniKvmSendSig] at member

theorem dump_of_dumpMem (member : (.dumpMem : Op n) ∈ handlers cmd) : cmd.type = .dumpMem := by
  cases kind : cmd.type with
  | dumpMem => rfl
  | _ =>
    simp [handlers, kind, statusHandleNone, statusHandlePause, statusHandleResume,
      statusHandleShutdown, statusHandleCmdState, statusHandleRegs, miniKvmPauseVm, miniKvmResumeVm,
      mem_miniKvmSendSig] at member

theorem regs_of_getRegs {i : Fin n} (member : .getRegs i ∈ handlers cmd) : cmd.type = .showRegs := by
  cases kind : cmd.type with
  | showRegs => rfl
  | _ =>
    simp [handlers, kind, statusHandleNone, statusHandlePause, statusHandleResume,
      statusHandleShutdown, statusHandleCmdState, statusHandleDumpMem, miniKvmPauseVm,
      miniKvmResumeVm, mem_miniKvmSendSig] at member

theorem mem_handlers {op : Op n} (other : op ≠ .lock) (member : op ∈ (Task.command cmd).ops) :
    op ∈ handlers cmd := by
  rcases List.mem_cons.mp member with same | inside
  · exact absurd same other
  · exact inside

theorem handlers_showRegs (kind : cmd.type = .showRegs) :
    handlers (n := n) cmd = .unlessPausedReturn ::
      ((List.finRange n).filter fun i => vcpuSelected cmd.vcpus i.val).map .getRegs := by
  rw [handlers, kind]
  rfl

theorem handlers_dumpMem (kind : cmd.type = .dumpMem) :
    handlers (n := n) cmd = [.unlessPausedReturn, .dumpMem] := by
  rw [handlers, kind]
  rfl

/-- Both queries of a paused VM test it first. -/
theorem handlers_of_guarded {op : Op n} (member : op ∈ (Task.command cmd).ops)
    (guarded : op.guarded = true) :
    ∃ queries : List (Op n), handlers cmd = .unlessPausedReturn :: queries ∧
      ∀ op ∈ queries, op = .dumpMem ∨ ∃ i, op = .getRegs i := by
  obtain ⟨pre, rest, split⟩ := List.append_of_mem member
  obtain ⟨_, same, kind⟩ := at_guarded ⟨pre, split.symm⟩ guarded
  cases same
  rcases kind with kind | kind
  · refine ⟨_, handlers_showRegs kind, fun op among => .inr ?_⟩
    obtain ⟨i, -, rfl⟩ := List.mem_map.mp among
    exact ⟨i, rfl⟩
  · refine ⟨[.dumpMem], handlers_dumpMem kind, fun op among => .inl ?_⟩
    exact List.mem_singleton.mp among

/-- The registers are asked for in the order of the vcpus. -/
theorem asked_later {i j : Fin n} {rest : List (Op n)}
    (suffix : .getRegs i :: rest <:+ (Task.command cmd).ops) (member : .getRegs j ∈ rest) :
    i < j := by
  have kind := regs_of_getRegs (mem_handlers (by simp) (suffix.subset List.mem_cons_self))
  have text : (Task.command cmd).ops = [Op.lock, .unlessPausedReturn] ++
      ((List.finRange n).filter fun i => vcpuSelected cmd.vcpus i.val).map .getRegs :=
    congrArg (Op.lock :: ·) (handlers_showRegs kind)
  rw [text] at suffix
  have inside := cons_suffix_of_not_mem suffix (by simp)
  have ordered : (((List.finRange n).filter fun i => vcpuSelected cmd.vcpus i.val).map
      Op.getRegs).Pairwise fun a b => ∀ i j, a = .getRegs i → b = .getRegs j → i < j := by
    rw [List.pairwise_map]
    refine ((List.pairwise_lt_finRange n).filter _).imp ?_
    rintro a b less i j ⟨⟩ ⟨⟩
    exact less
  exact (List.pairwise_cons.mp (ordered.sublist inside.sublist)).1 _ member i j rfl rfl

/-- What a query does to the Kvm, once it has the lock. -/
theorem query_effect {op : Op n} (query : ¬ cmd.type.Changes)
    (member : op ∈ (Task.command cmd).ops) (effect : op.Effect s t) :
    t.kvm.state = s.kvm.state ∧ t.kvm.paused = s.kvm.paused ∧
      t.kvm.pauseLock = s.kvm.pauseLock ∧ t.kvm.pauseCond = s.kvm.pauseCond ∧
        t.pending = s.pending := by
  have state := effect.state
  have paused := effect.paused
  have pauseLock := effect.pauseLock
  have pauseCond := effect.pauseCond
  have pending := effect.pending
  rcases mem_query_ops query member with rfl | rfl | guarded
  · exact ⟨state, paused, pauseLock, pauseCond, pending⟩
  · exact ⟨state, paused, pauseLock, pauseCond, pending⟩
  · cases op <;> simp only [Op.guarded, Bool.false_eq_true] at guarded <;>
      exact ⟨state, paused, pauseLock, pauseCond, pending⟩

/-- A command creates no thread. -/
theorem command_vcpus {op : Op n} (member : op ∈ (Task.command cmd).ops) (effect : op.Effect s t) :
    t.vcpus = s.vcpus := by
  have vcpus := effect.vcpus
  cases op with
  | pthreadCreate i => cases startVm_of_pthreadCreate member
  | _ => exact vcpus

/-! ## What holds all along a call -/

/-- Wherever a call that nothing hinders has come to. -/
structure Calm (host : Host n) (s : State n) (cmd : MiniKvmStatusCommand) (t : State n) : Prop where
  inCall : InCall cmd t
  text : InText t
  alive : t.killed = false
  succeeds : Server.Succeeds t
  signals : Armed cmd t
  lock : ∀ rest, t.In (.command cmd) (.lock :: rest) → t.kvm.lock.owner = none
  pause : ∀ rest, t.In (.command cmd) rest → .lockPause ∈ rest → Quiet t
  paused : ¬ cmd.type.Changes → t.kvm.state = .paused → s.kvm.state = .paused
  tested : ∀ op rest, t.In (.command cmd) (op :: rest) → op = .dumpMem ∨ (∃ i, op = .getRegs i) →
    s.kvm.state = .paused
  answered : ∀ rest, t.In (.command cmd) rest → rest ≠ [] → cmd.type = .showRegs →
    ∀ j, vcpuSelected cmd.vcpus j.val = true → .getRegs j ∉ rest → host.regs j = true
  out : cmd.type = .showRegs → s.kvm.state = .paused → ∀ i, Asked host cmd i → KeptOut t i

theorem mem_ops_of_selected (kind : cmd.type = .showRegs) {j : Fin n}
    (selected : vcpuSelected cmd.vcpus j.val = true) : .getRegs j ∈ (Task.command cmd).ops := by
  simp [Task.ops, Server.miniKvmStatusHandleCommand, handlers_showRegs kind, selected]

theorem calm_begun (alive : s.killed = false) (free : s.kvm.lock.owner = none)
    (unhindered : Unhindered host s cmd) : Calm host s cmd (begun cmd s) where
  inCall := .inl ⟨_, _, rfl⟩
  text := by
    rintro task rest ⟨ret, here⟩
    cases here
    exact List.suffix_rfl
  alive := alive
  succeeds := by
    rintro cmd ret rest here changes
    cases here
    rfl
  signals := unhindered.signals
  lock _ _ := free
  pause := by
    rintro rest ⟨ret, here⟩ member
    cases here
    have kind := pause_of_lockPause (mem_handlers (by simp) member)
    exact ⟨(unhindered.pause kind).free, (unhindered.pause kind).asleep⟩
  paused _ here := here
  tested := by
    rintro op rest ⟨ret, here⟩ query
    cases here
    rcases query with query | ⟨i, query⟩ <;> cases query
  answered := by
    rintro rest ⟨ret, here⟩ - kind j selected absent
    cases here
    exact absurd (mem_ops_of_selected kind selected) absent
  out kind paused i asked :=
    .paused paused fun may =>
      unhindered.regs kind paused i asked (may.of_same rfl rfl rfl rfl)

section Steps

variable {v : State n} (calm : Calm host s cmd t) (h : callStep fuel host t e = some v)

include calm h

theorem alive_step (ends : cmd.type = .dumpMem → s.kvm.state = .paused →
    host.opens cmd.pid = true → dumpEnd fuel host cmd = .done) : v.killed = false := by
  cases call_cases calm.inCall h with
  | op at_ effect => exact effect.killed.trans calm.alive
  | fails at_ query only => rw [only]; exact calm.alive
  | returns at_ event result => rw [result]; exact calm.alive
  | crashes at_ event only =>
    obtain ⟨permitted, -⟩ := callStep_eq_some.mp h
    obtain ⟨opens, crashed⟩ : host.opens cmd.pid = true ∧ dumpEnd fuel host cmd = .crashed := by
      simpa [permits, at_, event] using permitted
    have kind := dump_of_dumpMem (mem_handlers (by simp) (calm.text.mem ⟨_, at_⟩))
    have paused := calm.tested _ _ ⟨_, at_⟩ (.inl rfl)
    rw [ends kind paused opens] at crashed
    cases crashed
  | vcpus of moves =>
    obtain ⟨i, side⟩ | ⟨-, bare, i, sent⟩ := side_of_vcpus of moves
    · exact side.frame.killed.trans calm.alive
    · exact absurd (not_sent_of_armed calm.signals bare) sent

theorem signals_step (alive : v.killed = false) : Armed cmd v := by
  cases call_cases calm.inCall h with
  | @op ret op rest at_ effect =>
    have member := calm.text.mem ⟨_, at_⟩
    have vcpus := command_vcpus member effect
    rcases calm.signals with ready | ⟨silent, nobody⟩
    · refine .inl ?_
      unfold State.Installed at *
      rwa [vcpus]
    · refine .inr ⟨fun i => ?_, nobody⟩
      by_cases changes : cmd.type.Changes
      · exact absurd i.isLt (by simp [nobody changes])
      · rw [(query_effect changes member effect).2.2.2.2, silent]
  | fails at_ query only => rw [only]; exact calm.signals
  | returns at_ event result => rw [result]; exact calm.signals
  | crashes at_ event only => simp [only] at alive
  | vcpus of moves =>
    obtain ⟨i, side⟩ | ⟨only, -⟩ := side_of_vcpus of moves
    · exact armed_side calm.signals side
    · simp [only] at alive

theorem lock_step (alive : v.killed = false) :
    ∀ rest, v.In (.command cmd) (.lock :: rest) → v.kvm.lock.owner = none := by
  intro rest here
  cases call_arrives calm.inCall h here with
  | stays same side => rw [side.frame.lock]; exact calm.lock _ same
  | @runs op was =>
    -- nothing comes before the lock
    obtain ⟨pre, split⟩ := calm.text _ _ was
    have inside : (.lock : Op n) ∈ handlers cmd := by
      have text : pre ++ op :: .lock :: rest = .lock :: handlers cmd := split
      cases pre with
      | nil => simp [← (List.cons.inj text).2]
      | cons first pre => simp [← (List.cons.inj text).2]
    exact absurd inside (lock_not_mem_handlers cmd)
  | ends last => cases last
  | killed killed => rw [killed] at alive; cases alive

theorem pause_step (alive : v.killed = false) :
    ∀ rest, v.In (.command cmd) rest → .lockPause ∈ rest → Quiet v := by
  intro rest here member
  cases call_arrives calm.inCall h here with
  | stays same side => exact quiet_side (calm.pause _ same member) side
  | @runs op was effect =>
    have quiet := calm.pause _ was (List.mem_cons_of_mem _ member)
    have inside := (calm.text _ _ was).subset (List.mem_cons_of_mem _ member)
    have kind := pause_of_lockPause (mem_handlers (by simp) inside)
    have vcpus := command_vcpus (calm.text.mem was) effect
    have lock := effect.pauseLock
    have cond := effect.pauseCond
    rcases (mem_pause_ops kind).mp (calm.text.mem was) with rfl | rfl | ⟨i, rfl⟩ | rfl | rfl
    case inr.inr.inr.inl =>
      obtain ⟨_, -, -, last⟩ := at_lockPause (calm.text _ _ was)
      simp [last] at member
    all_goals
      refine ⟨lock ▸ quiet.free, fun j waits => ?_⟩
      rw [cond]
      exact quiet.asleep j (vcpus ▸ waits)
  | ends last => simp [last] at member
  | killed killed => rw [killed] at alive; cases alive

/-- A step of a query is one of the vcpus, or leaves them and what they go by as it was. -/
theorem query_step (query : ¬ cmd.type.Changes) (alive : v.killed = false) :
    (∃ i, VcpuSide t i e v) ∨ v.vcpus = t.vcpus ∧ v.kvm.state = t.kvm.state ∧
      v.kvm.paused = t.kvm.paused ∧ v.kvm.pauseLock = t.kvm.pauseLock ∧
        v.kvm.pauseCond = t.kvm.pauseCond ∧ v.pending = t.pending := by
  cases call_cases calm.inCall h with
  | op at_ effect =>
    have member := calm.text.mem ⟨_, at_⟩
    exact .inr ⟨command_vcpus member effect, query_effect query member effect⟩
  | fails at_ guarded only => exact .inr (by simp [only])
  | returns at_ event result => exact .inr (by rw [result]; exact ⟨rfl, rfl, rfl, rfl, rfl, rfl⟩)
  | crashes at_ event only => simp [only] at alive
  | vcpus of moves =>
    obtain ⟨i, side⟩ | ⟨only, -⟩ := side_of_vcpus of moves
    · exact .inl ⟨i, side⟩
    · simp [only] at alive

theorem paused_step (alive : v.killed = false) (query : ¬ cmd.type.Changes)
    (here : v.kvm.state = .paused) : s.kvm.state = .paused := by
  refine calm.paused query ?_
  rcases query_step calm h query alive with ⟨i, side⟩ | ⟨-, state, -⟩
  · rcases side.frame.state with same | down
    · exact same ▸ here
    · simp [down] at here
  · exact state ▸ here

theorem tested_step (alive : v.killed = false) (op : Op n) (rest : List (Op n))
    (here : v.In (.command cmd) (op :: rest)) (query : op = .dumpMem ∨ ∃ i, op = .getRegs i) :
    s.kvm.state = .paused := by
  cases call_arrives calm.inCall h here with
  | stays same => exact calm.tested _ _ same query
  | @runs op' was effect paused =>
    have suffix := calm.text _ _ was
    have member : op ∈ (Task.command cmd).ops := suffix.subset (by simp)
    have guarded : op.guarded = true := by
      rcases query with rfl | ⟨i, rfl⟩ <;> rfl
    obtain ⟨queries, text, among⟩ := handlers_of_guarded member guarded
    have ops : (Task.command cmd).ops = .lock :: .unlessPausedReturn :: queries :=
      congrArg (Op.lock :: ·) text
    have before : op' = .lock ∨ op' = .unlessPausedReturn ∨ op' ∈ queries := by
      simpa [ops] using calm.text.mem was
    rcases before with rfl | rfl | inside
    · obtain ⟨_, same, next, -⟩ := at_lock suffix
      cases same
      rw [text] at next
      rcases query with rfl | ⟨i, rfl⟩ <;> cases next
    · obtain ⟨_, same, kind⟩ := at_guarded suffix rfl
      cases same
      have only : ¬ cmd.type.Changes := by
        rcases kind with kind | kind <;> simp [kind, CommandType.Changes, CommandType.Releases]
      exact calm.paused only (paused rfl)
    · exact calm.tested _ _ was (among op' inside)
  | ends last => cases last
  | killed killed => rw [killed] at alive; cases alive

theorem answered_step (alive : v.killed = false) (rest : List (Op n))
    (here : v.In (.command cmd) rest) (more : rest ≠ []) (kind : cmd.type = .showRegs) (j : Fin n)
    (selected : vcpuSelected cmd.vcpus j.val = true) (absent : .getRegs j ∉ rest) :
    host.regs j = true := by
  cases call_arrives calm.inCall h here with
  | stays same => exact calm.answered _ same more kind j selected absent
  | @runs op was effect paused answered =>
    by_cases own : op = .getRegs j
    · simpa [own, answers] using answered
    · exact calm.answered _ was (by simp) kind j selected (by simp [absent, Ne.symm own])
  | ends last => exact absurd last more
  | killed killed => rw [killed] at alive; cases alive

theorem out_step (alive : v.killed = false) (kind : cmd.type = .showRegs)
    (paused : s.kvm.state = .paused) (i : Fin n) (asked : Asked host cmd i) : KeptOut v i := by
  have query : ¬ cmd.type.Changes := by simp [kind, CommandType.Changes, CommandType.Releases]
  have before := calm.out kind paused i asked
  rcases query_step calm h query alive with ⟨j, side⟩ | ⟨vcpus, state, flag, lock, cond, -⟩
  · exact keptOut_side before side
  · exact before.of_same state vcpus flag lock cond

theorem calm_step (ends : cmd.type = .dumpMem → s.kvm.state = .paused →
    host.opens cmd.pid = true → dumpEnd fuel host cmd = .done) : Calm host s cmd v := by
  have alive := alive_step calm h ends
  have moves := (callStep_eq_some.mp h).2
  exact {
    inCall := inCall_step calm.inCall h
    text := inText_step calm.text moves
    alive
    succeeds := succeeds_step calm.text calm.succeeds moves
    signals := signals_step calm h alive
    lock := lock_step calm h alive
    pause := pause_step calm h alive
    paused := paused_step calm h alive
    tested := tested_step calm h alive
    answered := answered_step calm h alive
    out := out_step calm h alive }

end Steps

/-- Wherever it comes to, the call goes on. -/
theorem unblocked_of_calm (calm : Calm host s cmd t)
    (ends : cmd.type = .dumpMem → s.kvm.state = .paused → host.opens cmd.pid = true →
      dumpEnd fuel host cmd = .done)
    (logs : s.kvm.state = .paused → Reports host cmd → host.logs = true)
    {ret : MiniKVMError} {op : Op n} {rest : List (Op n)}
    (at_ : t.main = .exec (.command cmd) ret (op :: rest)) : Unblocked fuel host cmd t op := by
  have suffix := calm.text _ _ ⟨ret, at_⟩
  have member := suffix.subset List.mem_cons_self
  cases op with
  | lock => exact calm.lock rest ⟨ret, at_⟩
  | lockPause => exact (calm.pause _ ⟨ret, at_⟩ (by simp)).free
  | dumpMem =>
    have kind := dump_of_dumpMem (mem_handlers (by simp) member)
    have paused := calm.tested _ _ ⟨ret, at_⟩ (.inl rfl)
    exact ⟨ends kind paused, fun shut => logs paused (.inr ⟨kind, shut⟩)⟩
  | getRegs i =>
    have inside := mem_handlers (by simp) member
    have kind := regs_of_getRegs inside
    have paused := calm.tested _ _ ⟨ret, at_⟩ (.inr ⟨i, rfl⟩)
    have selected : vcpuSelected cmd.vcpus i.val = true := by
      simpa [handlers_showRegs kind] using inside
    have asked : Asked host cmd i := by
      refine ⟨selected, fun j less selected => ?_⟩
      refine calm.answered _ ⟨ret, at_⟩ (by simp) kind j selected fun again => ?_
      rcases List.mem_cons.mp again with same | later
      · cases same
        exact absurd less (lt_irrefl _)
      · exact absurd (asked_later suffix later) (not_lt_of_gt less)
    exact ⟨(calm.out kind paused i asked).outside,
      fun refused => logs paused (.inl ⟨kind, i, selected, refused⟩)⟩
  | _ => trivial

theorem calm_run {es : List (Event n)} (calm : Calm host s cmd u)
    (ends : cmd.type = .dumpMem → s.kvm.state = .paused → host.opens cmd.pid = true →
      dumpEnd fuel host cmd = .done)
    (reaches : (calls fuel host).run u es = some t) : Calm host s cmd t :=
  (calls fuel host).invariant_reachable (fun _ _ _ before moves => calm_step before moves ends) calm
    reaches

/-! ## What a call that returns leaves -/

/-- A step of a query is a step that the vcpus make without it, or changes nothing that they see. -/
theorem beside_step {v w : State n} (calm : Calm host s cmd t) (query : ¬ cmd.type.Changes)
    (h : callStep fuel host t e = some v) (alive : v.killed = false) (like : t = beside w t) :
    ∃ x, (system n).run w ([e].filter ofVcpus) = some x ∧ v = beside x v ∧
      x.kvm.lock = w.kvm.lock := by
  by_cases of : ofVcpus e = true
  · rw [callStep_of_vcpus of, like, step_beside of] at h
    obtain ⟨x, moves, rfl⟩ := Option.map_eq_some_iff.mp h
    refine ⟨x, ?_, rfl, ?_⟩
    · rw [List.filter_cons_of_pos of]
      exact (system n).run_cons.mpr ⟨x, moves, rfl⟩
    · obtain ⟨i, side⟩ | ⟨rfl, -⟩ := side_of_vcpus of moves
      · exact side.frame.lock
      · rfl
  · refine ⟨w, by rw [List.filter_cons_of_neg of]; rfl, ?_, rfl⟩
    rcases query_step calm h query alive with ⟨i, side⟩ | ⟨vcpus, state, flag, lock, cond, pending⟩
    · exact absurd (ofVcpus_of_side side) of
    · rw [like] at vcpus pending state flag lock cond
      have killed : v.killed = w.killed := by
        have before := calm.alive
        rw [like] at before
        exact alive.trans before.symm
      exact eq_beside vcpus pending killed state flag lock cond

theorem beside_run {v w : State n} {es : List (Event n)} (calm : Calm host s cmd t)
    (ends : cmd.type = .dumpMem → s.kvm.state = .paused → host.opens cmd.pid = true →
      dumpEnd fuel host cmd = .done)
    (query : ¬ cmd.type.Changes) (like : t = beside w t)
    (reaches : (calls fuel host).run t es = some v) :
    ∃ x, (system n).run w (es.filter ofVcpus) = some x ∧ v = beside x v ∧
      x.kvm.lock = w.kvm.lock := by
  induction es generalizing t w with
  | nil =>
    cases reaches
    exact ⟨w, rfl, like, rfl⟩
  | cons e es ih =>
    obtain ⟨t', moves, rest⟩ := (calls fuel host).run_cons.mp reaches
    have calm' := calm_step calm moves ends
    obtain ⟨w', first, like', lock⟩ := beside_step calm query moves calm'.alive like
    obtain ⟨x, later, last, same⟩ := ih calm' like' rest
    refine ⟨x, ?_, last, same.trans lock⟩
    rw [← List.singleton_append, List.filter_append]
    exact (system n).run_append.mpr ⟨w', first, later⟩

/-- The label of a return. -/
theorem returns_of_label {type : CommandType} {ret : MiniKVMError}
    (labelled : label t e = some (.returned type ret)) :
    e = .main ∧ ∃ cmd, cmd.type = type ∧ t.main = .exec (.command cmd) ret [] := by
  unfold label at labelled
  split at labelled
  · cases labelled
  · split at labelled
    · next cmd ret' at_ =>
      cases labelled
      exact ⟨rfl, cmd, rfl, at_⟩
    · cases labelled
  · cases labelled

theorem dumpEnd_done_iff :
    (∃ fuel, dumpEnd fuel host cmd = .done) ↔ Harmless host.memSize cmd := by
  rw [← safe_iff_harmless]
  constructor
  · rintro ⟨fuel, done⟩
    unfold dumpEnd at done
    split at done
    · cases done
    · cases done
    · next reads dumped =>
      split at done
      · next inside => exact ⟨fuel, reads, congrArg (Prod.mk _) dumped, inside⟩
      · cases done
  · rintro ⟨fuel, reads, dumped, inside⟩
    have done : miniKvmDumpMem fuel host.memSize (rangeStart cmd) (rangeEnd host.memSize cmd)
        (rangeWordSize cmd) (rangeBytesPerLine cmd) = .done reads := congrArg Prod.snd dumped
    refine ⟨fuel, ?_⟩
    rw [dumpEnd, done]
    exact if_pos inside

theorem exists_fuel (unhindered : Unhindered host s cmd) :
    ∃ fuel, cmd.type = .dumpMem → s.kvm.state = .paused → host.opens cmd.pid = true →
      dumpEnd fuel host cmd = .done := by
  by_cases dumps : cmd.type = .dumpMem ∧ s.kvm.state = .paused ∧ host.opens cmd.pid = true
  · obtain ⟨kind, paused, opens⟩ := dumps
    obtain ⟨fuel, done⟩ := dumpEnd_done_iff.mpr (unhindered.dump kind paused opens)
    exact ⟨fuel, fun _ _ _ => done⟩
  · exact ⟨0, fun kind paused opens => absurd ⟨kind, paused, opens⟩ dumps⟩

theorem comesBack_of_unhindered (alive : s.killed = false) (free : s.kvm.lock.owner = none)
    (unhindered : Unhindered host s cmd) : ∃ fuel, ComesBack fuel host s (begun cmd s) := by
  obtain ⟨fuel, ends⟩ := exists_fuel unhindered
  have start := calm_begun alive free unhindered
  refine ⟨fuel, ?_, ⟨_, fun es t reaches => count_le_ahead start.inCall reaches⟩, ?_⟩
  · intro es t reaches busy
    have calm := calm_run start ends reaches
    refine ⟨calm.alive, ?_⟩
    rcases calm.inCall with ⟨rest, ret, at_⟩ | done
    · cases rest with
      | nil =>
        refine ⟨.main, finish t ret (.command cmd), rfl, callStep_eq_some.mpr ⟨?_, ?_⟩⟩
        · simp [permits, at_]
        · exact step_eq_some.mpr ⟨calm.alive, by simp [live, mainStep, at_]⟩
      | cons op rest =>
        exact (exists_access_iff calm.alive at_).mpr
          (unblocked_of_calm calm ends unhindered.log at_)
    · exact absurd done busy
  · intro es t e v type ret reaches moves labelled
    obtain ⟨rfl, cmd', rfl, at_⟩ := returns_of_label labelled
    have calm := calm_run start ends reaches
    cases calm.inCall.eq_of_exec at_
    have result : v = finish t ret (.command cmd) := by
      have moves := (callStep_eq_some.mp moves).2
      rw [step_of_alive calm.alive] at moves
      simpa [live, mainStep, at_] using moves.symm
    refine ⟨by rw [result]; rfl, by rw [result]; rfl, fun error => ?_⟩
    have query : ¬ cmd.type.Changes := fun changes =>
      error (calm.succeeds cmd ret [] at_ changes)
    obtain ⟨w, alone, like, lock⟩ := beside_run start ends query (w := s) rfl reaches
    refine ⟨w, alone, ?_⟩
    have unowned : w.kvm.lock = .unowned := lock.trans (congrArg Mutex.mk free)
    calc
      v.kvm = { w.kvm with lock := .unowned } := by
        rw [result, like]
        rfl
      _ = w.kvm := by rw [← unowned]

/-! ## What keeps a call from coming back -/

/-- The call can come to a place where the process is dead or the main thread has to wait. -/
def Hangs (fuel : Nat) (host : Host n) (cmd : MiniKvmStatusCommand) (u : State n) : Prop :=
  ∃ es t, (calls fuel host).run u es = some t ∧ t.main ≠ .replying ∧ (t.killed = true ∨
    ∃ ret op rest, t.main = .exec (.command cmd) ret (op :: rest) ∧ ¬ Unblocked fuel host cmd t op)

theorem not_comesBack (hangs : Hangs fuel host cmd u) : ¬ ComesBack fuel host s u := by
  rintro ⟨goesOn, -, -⟩
  obtain ⟨es, t, reaches, busy, stuck⟩ := hangs
  obtain ⟨alive, moves⟩ := goesOn es t reaches busy
  rcases stuck with killed | ⟨ret, op, rest, at_, blocked⟩
  · rw [killed] at alive
    cases alive
  · exact blocked ((exists_access_iff alive at_).mp moves)

theorem Hangs.after {es : List (Event n)} (reaches : (calls fuel host).run u es = some t)
    (hangs : Hangs fuel host cmd t) : Hangs fuel host cmd u := by
  obtain ⟨es', v, later, stuck⟩ := hangs
  exact ⟨es ++ es', v, (calls fuel host).run_append.mpr ⟨t, reaches, later⟩, stuck⟩

theorem Hangs.step (moves : callStep fuel host u e = some t) (hangs : Hangs fuel host cmd t) :
    Hangs fuel host cmd u := by
  have reaches : (calls fuel host).run u [e] = some t :=
    (calls fuel host).run_cons.mpr ⟨t, moves, rfl⟩
  exact hangs.after reaches

theorem hangs_at {ret : MiniKVMError} {op : Op n} {rest : List (Op n)}
    (at_ : t.main = .exec (.command cmd) ret (op :: rest))
    (blocked : ¬ Unblocked fuel host cmd t op) : Hangs fuel host cmd t :=
  ⟨[], t, rfl, by simp [at_], .inr ⟨ret, op, rest, at_, blocked⟩⟩

theorem calls_of_vcpus {es : List (Event n)} (of : ∀ e ∈ es, ofVcpus e = true)
    (reaches : (system n).run s es = some t) : (calls fuel host).run s es = some t := by
  induction es generalizing s with
  | nil => exact reaches
  | cons e es ih =>
    obtain ⟨u, moves, rest⟩ := (system n).run_cons.mp reaches
    obtain ⟨own, others⟩ := List.forall_mem_cons.mp of
    exact (calls fuel host).run_cons.mpr ⟨u, (callStep_of_vcpus own).trans moves, ih others rest⟩

variable (fuel host) in
/-- The main thread makes its next access. -/
theorem own_step {v : State n} {ret : MiniKVMError} {op : Op n} {rest : List (Op n)}
    (alive : t.killed = false) (at_ : t.main = .exec (.command cmd) ret (op :: rest))
    (permitted : permits fuel host t .main = true) (effect : op.exec t = some v) :
    callStep fuel host t .main =
      some { v with main := op.next t (.command cmd) ret rest } := by
  refine callStep_eq_some.mpr ⟨permitted, step_eq_some.mpr ⟨alive, ?_⟩⟩
  simp [live, mainStep, at_, effect]

/-- The call has taken `kvm->lock`. -/
def entered (cmd : MiniKvmStatusCommand) (s : State n) : State n :=
  { s with kvm := { s.kvm with lock := ⟨some .main⟩ },
           main := .exec (.command cmd) .success (handlers cmd) }

theorem enters (alive : s.killed = false) (free : s.kvm.lock.owner = none) :
    callStep fuel host (begun cmd s) .main = some (entered cmd s) := by
  have taken : Op.lock.exec (begun cmd s) =
      some { begun cmd s with kvm := { s.kvm with lock := ⟨some .main⟩ } } := by
    rw [Op.exec, Option.map_eq_some_iff]
    exact ⟨_, Mutex.lock_eq_some.mpr ⟨free, rfl⟩, rfl⟩
  exact own_step fuel host (t := begun cmd s) alive rfl rfl taken

variable (fuel host) in
/-- The store of `kvm->state` and the signals, as far as they go. -/
theorem opening_passes {pre post : List (Op n)} {ret : MiniKVMError}
    (opening : ∀ op ∈ pre, (∃ v, op = .storeState v) ∨ ∃ i sig, op = .pthreadKill i sig)
    (alive : t.killed = false) (at_ : t.main = .exec (.command cmd) ret (pre ++ post)) :
    ∃ es v, (calls fuel host).run t es = some v ∧ v.main = .exec (.command cmd) ret post ∧
      v.killed = false ∧ v.vcpus = t.vcpus ∧ v.kvm.pauseLock = t.kvm.pauseLock ∧
        ∀ i sig, sig ∈ t.pending i ∨ .pthreadKill i sig ∈ pre → sig ∈ v.pending i := by
  induction pre generalizing t with
  | nil => exact ⟨[], t, rfl, at_, alive, rfl, rfl, by simp⟩
  | cons op pre ih =>
    obtain ⟨first, others⟩ := List.forall_mem_cons.mp opening
    obtain ⟨u, moves, main, killed, vcpus, lock, sent⟩ :
        ∃ u, callStep fuel host t .main = some u ∧
          u.main = .exec (.command cmd) ret (pre ++ post) ∧ u.killed = false ∧
          u.vcpus = t.vcpus ∧ u.kvm.pauseLock = t.kvm.pauseLock ∧
          ∀ i sig, sig ∈ t.pending i ∨ op = .pthreadKill i sig → sig ∈ u.pending i := by
      rcases first with ⟨v, rfl⟩ | ⟨i, sig, rfl⟩
      · exact ⟨_, own_step fuel host alive at_ (by simp [permits, at_]) rfl, rfl, alive, rfl, rfl,
          by simp⟩
      · refine ⟨_, own_step fuel host alive at_ (by simp [permits, at_]) rfl, rfl, alive, rfl, rfl, ?_⟩
        rintro j sig' (before | same)
        · simp only [Function.update_apply]
          split
          · next here => simp [← here, before]
          · exact before
        · cases same
          simp
    obtain ⟨es, v, reaches, main', alive', vcpus', lock', sent'⟩ := ih others killed main
    refine ⟨.main :: es, v, (calls fuel host).run_cons.mpr ⟨u, moves, reaches⟩, main', alive',
      vcpus'.trans vcpus, lock'.trans lock, ?_⟩
    rintro i sig (before | member)
    · exact sent' i sig (.inl (sent i sig (.inl before)))
    · rcases List.mem_cons.mp member with same | later
      · exact sent' i sig (.inl (sent i sig (.inr same.symm)))
      · exact sent' i sig (.inr later)

/-- The part of PAUSE, RESUME and SHUTDOWN before the pause protocol. -/
theorem opening_of_sends {v : VMState} {sig : VMSignal} (op : Op n)
    (member : op ∈ .storeState v :: miniKvmSendSig sig) :
    (∃ v, op = .storeState v) ∨ ∃ i sig, op = .pthreadKill i sig := by
  rcases List.mem_cons.mp member with same | sent
  · exact .inl ⟨v, same⟩
  · obtain ⟨i, same⟩ := mem_miniKvmSendSig.mp sent
    exact .inr ⟨i, sig, same⟩

/-! ### A signal without its handler -/

theorem hangs_of_signal {i : Fin n} {sig : VMSignal} (alive : t.killed = false)
    (bare : ¬ t.Installed) (sent : sig ∈ t.pending i) (busy : t.main ≠ .replying) :
    Hangs fuel host cmd t := by
  have moves : callStep fuel host t (.deliver i sig) = some { t with killed := true } := by
    rw [callStep_of_vcpus rfl, step_of_alive alive]
    simp [live, deliverStep, sent, bare]
  exact ⟨[.deliver i sig], _, (calls fuel host).run_cons.mpr ⟨_, moves, rfl⟩, busy, .inl rfl⟩

theorem handlers_of_changes (changes : cmd.type.Changes) :
    ∃ v sig, ∃ coda : List (Op n), handlers cmd = .storeState v :: miniKvmSendSig sig ++ coda := by
  rcases changes with kind | kind | kind <;> rw [handlers, kind] <;> exact ⟨_, _, _, rfl⟩

theorem signals_hang (alive : s.killed = false) (free : s.kvm.lock.owner = none)
    (unarmed : ¬ Armed cmd s) : Hangs fuel host cmd (begun cmd s) := by
  simp only [Armed, not_or, not_and] at unarmed
  obtain ⟨bare, loud⟩ := unarmed
  by_cases silent : ∀ i, s.pending i = []
  · obtain ⟨changes, many⟩ := Classical.not_imp.mp (loud silent)
    let i : Fin n := ⟨0, Nat.pos_of_ne_zero many⟩
    obtain ⟨v, sig, coda, text⟩ := handlers_of_changes (n := n) changes
    have at_ : (entered cmd s).main = .exec (.command cmd) .success
        (.storeState v :: miniKvmSendSig sig ++ coda) :=
      congrArg (MainPc.exec _ _) text
    obtain ⟨es, t, reaches, main, alive', vcpus, -, sent⟩ :=
      opening_passes fuel host (t := entered cmd s) opening_of_sends alive at_
    have bare' : ¬ t.Installed := by
      unfold State.Installed at *
      rwa [vcpus]
    have arrives : sig ∈ t.pending i :=
      sent i sig (.inr (List.mem_cons_of_mem _ (mem_miniKvmSendSig.mpr ⟨i, rfl⟩)))
    exact .step (enters alive free) (.after reaches
      (hangs_of_signal alive' bare' arrives (by simp [main])))
  · obtain ⟨i, sent⟩ := not_forall.mp silent
    obtain ⟨sig, member⟩ := List.exists_mem_of_ne_nil _ sent
    exact hangs_of_signal alive bare member (by simp [begun])

/-! ### PAUSE -/

theorem pause_hangs_of_owned (kind : cmd.type = .pause) (alive : s.killed = false)
    (free : s.kvm.lock.owner = none) (owned : s.kvm.pauseLock.owner ≠ none) :
    Hangs fuel host cmd (begun cmd s) := by
  have at_ : (entered cmd s).main = .exec (.command cmd) .success
      ((.storeState .paused :: miniKvmSendSig .pause) ++ miniKvmPauseVm) := by
    rw [entered, handlers, kind]
    rfl
  obtain ⟨es, t, reaches, main, -, -, lock, -⟩ :=
    opening_passes fuel host (t := entered cmd s) opening_of_sends alive at_
  refine .step (enters alive free) (.after reaches (hangs_at main fun unblocked => owned ?_))
  exact lock ▸ unblocked

theorem pause_hangs (kind : cmd.type = .pause) (alive : s.killed = false)
    (free : s.kvm.lock.owner = none) (loud : ¬ Quiet s) : Hangs fuel host cmd (begun cmd s) := by
  by_cases owned : s.kvm.pauseLock.owner = none
  · obtain ⟨i, at_, woken⟩ : ∃ i, s.vcpus i = .waiting ∧
        s.kvm.pauseCond.waiter i = some .woken := by
      by_contra nobody
      exact loud ⟨owned, fun i at_ woken => nobody ⟨i, at_, woken⟩⟩
    -- the woken thread comes back to the lock first
    let t : State n := { s.goto i .testFlag with
      kvm := { s.kvm with
        pauseLock := ⟨some (.vcpu i)⟩
        pauseCond := s.kvm.pauseCond.leave i } }
    have wakes : callStep fuel host (begun cmd s) (.vcpu i) = some (begun cmd t) := by
      rw [callStep_of_vcpus rfl, step_of_alive (s := begun cmd s) alive]
      simp [live, kvmVcpuThreadRun, begun, at_, woken, Mutex.lock, owned, t, State.goto]
    exact .step wakes (pause_hangs_of_owned kind alive free (by simp [t]))
  · exact pause_hangs_of_owned kind alive free owned

/-! ### The queries -/

/-- A query on a paused VM has passed its test. -/
def tested (s : State n) (cmd : MiniKvmStatusCommand) (queries : List (Op n)) : State n :=
  { entered cmd s with main := .exec (.command cmd) .success queries }

theorem hangs_of_tested {queries : List (Op n)}
    (text : handlers cmd = .unlessPausedReturn :: queries) (alive : s.killed = false)
    (free : s.kvm.lock.owner = none) (paused : s.kvm.state = .paused)
    (hangs : Hangs fuel host cmd (tested s cmd queries)) : Hangs fuel host cmd (begun cmd s) := by
  have at_ : (entered cmd s).main =
      .exec (.command cmd) .success (.unlessPausedReturn :: queries) := congrArg _ text
  have passes := own_step fuel host (t := entered cmd s) alive at_ (by simp [permits, at_]) rfl
  have next : Op.unlessPausedReturn.next (entered cmd s) (.command cmd) .success queries =
      .exec (.command cmd) .success queries := if_pos paused
  rw [next] at passes
  exact .step (enters alive free) (.step passes hangs)

theorem dump_hangs (kind : cmd.type = .dumpMem) (alive : s.killed = false)
    (free : s.kvm.lock.owner = none) (paused : s.kvm.state = .paused)
    (opens : host.opens cmd.pid = true) (undone : dumpEnd fuel host cmd ≠ .done) :
    Hangs fuel host cmd (begun cmd s) := by
  refine hangs_of_tested (handlers_dumpMem kind) alive free paused ?_
  exact hangs_at (t := tested s cmd [.dumpMem]) rfl fun unblocked => undone (unblocked.1 opens)

/-- The first vcpu whose registers are waited for, or whose failure is, holds the call up. -/
theorem hangs_at_query {i : Fin n} (is : List (Fin n)) (member : i ∈ is) {ret : MiniKVMError}
    (before : host.logs = true → ∀ j ∈ is, j ≠ i → host.regs j = true ∨ i < j)
    (ordered : is.Pairwise (· < ·)) (alive : t.killed = false)
    (stuck : t.vcpus i = .inRun ∨ (host.regs i = false ∧ host.logs = false))
    (at_ : t.main = .exec (.command cmd) ret (is.map .getRegs)) : Hangs fuel host cmd t := by
  induction is generalizing t with
  | nil => cases member
  | cons j js ih =>
    obtain ⟨first, later⟩ := List.pairwise_cons.mp ordered
    by_cases free : Unblocked fuel host cmd t (.getRegs j)
    · obtain ⟨outside, logs⟩ := free
      have other : i ∈ js := by
        rcases List.mem_cons.mp member with rfl | among
        · rcases stuck with inside | ⟨refused, silent⟩
          · exact absurd inside outside
          · rw [logs refused] at silent
            cases silent
        · exact among
      have answers : host.regs j = true := by
        by_contra refused
        have logged := logs (Bool.eq_false_iff.mpr refused)
        rcases before logged j List.mem_cons_self (ne_of_lt (first i other)) with answer | above
        · exact refused answer
        · exact absurd (first i other) (not_lt_of_gt above)
      have moves := own_step fuel host (v := t) alive at_
        (by simp [permits, at_, answers]) (by simp [Op.exec, outside])
      exact .step moves (ih other (fun logged k among => before logged k (List.mem_cons_of_mem _ among))
        later alive stuck rfl)
    · exact hangs_at at_ free

theorem regs_hang (kind : cmd.type = .showRegs) (alive : s.killed = false)
    (free : s.kvm.lock.owner = none) (paused : s.kvm.state = .paused) {i : Fin n}
    (asked : Asked host cmd i) (may : MayRun s i) : Hangs fuel host cmd (begun cmd s) := by
  refine hangs_of_tested (handlers_showRegs kind) alive free paused ?_
  -- the thread gets into KVM_RUN while the main thread is past its test
  obtain ⟨t, leads, inside⟩ := leads_inRun (s := tested s cmd _) alive paused
    (may.of_same rfl rfl rfl rfl)
  obtain ⟨es, of, reach⟩ := leads.reach
  refine .after (calls_of_vcpus of reach) (hangs_at_query _ (i := i) ?_ ?_ ?_ leads.alive
    (.inl inside) leads.main)
  · simp [asked.1]
  · intro _ j member other
    refine (lt_or_gt_of_ne other).imp_left fun less => asked.2 j less ?_
    simpa using member
  · exact (List.pairwise_lt_finRange n).filter _

/-- ERROR does not come back. -/
theorem log_hangs (alive : s.killed = false) (free : s.kvm.lock.owner = none)
    (paused : s.kvm.state = .paused) (reports : Reports host cmd) (silent : host.logs ≠ true) :
    Hangs fuel host cmd (begun cmd s) := by
  have silent : host.logs = false := Bool.eq_false_iff.mpr silent
  rcases reports with ⟨kind, i, selected, refused⟩ | ⟨kind, shut⟩
  · refine hangs_of_tested (handlers_showRegs kind) alive free paused
      (hangs_at_query _ (i := i) ?_ ?_ ?_ alive (.inr ⟨refused, silent⟩) rfl)
    · simp [selected]
    · simp [silent]
    · exact (List.pairwise_lt_finRange n).filter _
  · refine hangs_of_tested (handlers_dumpMem kind) alive free paused ?_
    refine hangs_at (t := tested s cmd [.dumpMem]) rfl fun unblocked => ?_
    rw [unblocked.2 shut] at silent
    cases silent

/-! ## The call -/

theorem unhindered_of_comesBack (alive : s.killed = false) (free : s.kvm.lock.owner = none)
    (back : ComesBack fuel host s (begun cmd s)) : Unhindered host s cmd := by
  refine ⟨?_, fun kind => ?_, fun paused reports => ?_, fun kind paused i asked may => ?_,
    fun kind paused opens => ?_⟩
  · by_contra unarmed
    exact not_comesBack (signals_hang alive free unarmed) back
  · by_contra loud
    exact not_comesBack (pause_hangs kind alive free loud) back
  · by_contra silent
    exact not_comesBack (log_hangs alive free paused reports silent) back
  · exact not_comesBack (regs_hang kind alive free paused asked may) back
  · refine dumpEnd_done_iff.mp ⟨fuel, ?_⟩
    by_contra undone
    exact not_comesBack (dump_hangs kind alive free paused opens undone) back

/-- To the first recv of a VM with one vcpu, whose thread has installed its handlers. -/
def firstRecv : List (Event 1) := [.main, .vcpu sole, .main, .main, .main, .accept true]

def atFirstRecv : State 1 := ((system 1).run (init 1) firstRecv).getD (init 1)

def someHost : Host 1 := ⟨0x5000, fun _ => true, fun _ => true, true⟩

def commandOf (type : UInt32) : RawCommand := ⟨type, 0, .replicate 4 0, 0⟩

end MiniKvm.Guarantees.AnyCommand
