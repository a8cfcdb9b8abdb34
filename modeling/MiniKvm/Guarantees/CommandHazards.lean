import MiniKvm.Source.ServerInvariants

/-!
# What the vcpus can do to a command

`kvm->lock` keeps no vcpu thread out of the Kvm. In the middle of a command a signal can end the
process, a thread that has been woken can take `pause_lock`, and a thread can get into KVM_RUN, where
KVM_GET_REGS waits for it. Each of the three has its condition on the Kvm: where it holds the vcpus
keep it, and where it does not they get there.
-/
namespace MiniKvm.Guarantees.CommandHazards
open Lib Lib.Lts Lib.Sync Source Source.Server

variable {n : Nat} {s t : State n} {e : Event n} {cmd : MiniKvmStatusCommand} {i j k : Fin n}

/-! ## Signals -/

/-- The handlers are installed, or no signal is on its way and the command sends none. -/
def Armed (cmd : MiniKvmStatusCommand) (s : State n) : Prop :=
  s.Installed ∨ (∀ i, s.pending i = []) ∧ (cmd.type.Changes → n = 0)

theorem not_sent_of_armed (armed : Armed cmd s) (bare : ¬ s.Installed) : s.pending i = [] := by
  rcases armed with ready | ⟨silent, -⟩
  · exact absurd ready bare
  · exact silent i

theorem armed_side (before : Armed cmd s) (side : VcpuSide s i e t) : Armed cmd t := by
  by_cases ready : s.Installed
  · exact .inl (side.installed ready)
  -- the only thing that a thread can do before any has made its calls of signal() is to make them
  have early : s.vcpus i = .unborn ∨ s.vcpus i = .setup := by
    by_contra late
    exact ready ⟨i, not_or.mp late⟩
  cases side with
  | thread moves =>
    cases moves with
    | setup at_ => exact .inl ⟨i, by simp [State.goto_vcpus]⟩
    | _ at_ => simp [at_] at early
  | exit ret reason inside | interrupts sent inside => simp [inside] at early
  | consumed sent outside => simp [not_sent_of_armed before ready] at sent

/-! ## pause_lock -/

/-- `pause_lock` is free, and no thread is on its way back to it from pthread_cond_wait. -/
structure Quiet (s : State n) : Prop where
  free : s.kvm.pauseLock.owner = none
  asleep : ∀ i, s.vcpus i = .waiting → s.kvm.pauseCond.waiter i ≠ some .woken

theorem quiet_side (before : Quiet s) (side : VcpuSide s i e t) : Quiet t := by
  have others (pc : VcpuPc) (moves : pc ≠ .waiting) (j : Fin n)
      (waits : (s.goto i pc).vcpus j = .waiting) : s.kvm.pauseCond.waiter j ≠ some .woken := by
    rw [State.goto_vcpus] at waits
    split at waits
    · exact absurd waits moves
    · exact before.asleep j waits
  cases side with
  | thread moves =>
    cases moves with
    | waits at_ =>
      refine ⟨rfl, fun j waits => ?_⟩
      simp only [CondVar.wait_waiter]
      split
      · simp
      · next other => exact before.asleep j (by simpa [State.goto_vcpus, other] using waits)
    | wakes at_ woken => exact absurd woken (before.asleep i at_)
    | _ => exact ⟨before.free, others _ (by simp)⟩
  | exit | interrupts => exact ⟨before.free, others _ (by simp)⟩
  | consumed => exact ⟨before.free, before.asleep⟩

/-! ## KVM_RUN -/

/-- The thread can store MINI_KVM_SHUTDOWN. -/
def Stops : VcpuPc → Prop
  | .enterRun | .inRun => True
  | .exited _ reason => reason.shutsDown = true
  | _ => False

/-- The thread can come to its test of MINI_KVM_PAUSED, with the VM paused all along. -/
inductive ComesToTest (s : State n) (i : Fin n) : Prop where
  | setup (at_ : s.vcpus i = .setup)
  | shutdown (at_ : s.vcpus i = .testShutdown)
  | paused (at_ : s.vcpus i = .testPaused)
  | flag (at_ : s.vcpus i = .testFlag) (unset : s.kvm.paused = 0)
  | returns {ret : UInt32} {reason : ExitReason} (at_ : s.vcpus i = .exited ret reason)
    (stay : reason.shutsDown = false)
  | woken (at_ : s.vcpus i = .waiting) (unset : s.kvm.paused = 0)
    (woken : s.kvm.pauseCond.waiter i = some .woken)
    (lock : s.kvm.pauseLock.owner = none ∨ ∃ j, s.vcpus j = .callWait)

/-- In a paused VM, some schedule of the vcpus has the thread inside KVM_RUN: past its test of
MINI_KVM_PAUSED, or in time for it while another one stores MINI_KVM_SHUTDOWN. -/
inductive MayRun (s : State n) (i : Fin n) : Prop where
  | inside (at_ : s.vcpus i = .inRun)
  | enters (at_ : s.vcpus i = .enterRun)
  | passes (comes : ComesToTest s i) (j : Fin n) (stops : Stops (s.vcpus j))

theorem stops_of_side (paused : s.kvm.state = .paused) (side : VcpuSide s k e t)
    (stops : Stops (t.vcpus j)) : Stops (s.vcpus j) := by
  by_cases same : j = k
  · subst same
    cases side with
    | thread moves =>
      cases moves with
      | passes at_ unpaused => exact absurd paused unpaused
      | enters at_ => simp [at_, Stops]
      | _ => simp [State.goto_vcpus, Stops] at stops
    | exit ret reason inside => simp [inside, Stops]
    | interrupts sent inside => simp [inside, Stops]
    | consumed => exact stops
  · rwa [side.frame.others j same] at stops

/-- With `paused` unset no thread comes to wait any more. -/
theorem lock_of_side (unset : s.kvm.paused = 0) (side : VcpuSide s k e t)
    (lock : t.kvm.pauseLock.owner = none ∨ ∃ j, t.vcpus j = .callWait) :
    s.kvm.pauseLock.owner = none ∨ ∃ j, s.vcpus j = .callWait := by
  have others (moved : t.vcpus k ≠ .callWait) (waits : ∃ j, t.vcpus j = .callWait) :
      ∃ j, s.vcpus j = .callWait := by
    obtain ⟨j, at_⟩ := waits
    have other : j ≠ k := fun same => moved (same ▸ at_)
    exact ⟨j, by rw [← side.frame.others j other, at_]⟩
  cases side with
  | thread moves =>
    cases moves with
    | seesFlag at_ flag => exact absurd unset flag
    | waits at_ => exact .inr ⟨k, at_⟩
    | wakes at_ woken unowned => exact .inl unowned
    | _ => exact lock.imp_right (others (by simp [State.goto_vcpus]))
  | exit | interrupts => exact lock.imp_right (others (by simp [State.goto_vcpus]))
  | consumed => exact lock

theorem ComesToTest.of_same (comes : ComesToTest t i) (pc : t.vcpus i = s.vcpus i)
    (flag : t.kvm.paused = s.kvm.paused)
    (waiter : t.kvm.pauseCond.waiter i = s.kvm.pauseCond.waiter i)
    (lock : s.kvm.paused = 0 → (t.kvm.pauseLock.owner = none ∨ ∃ j, t.vcpus j = .callWait) →
      s.kvm.pauseLock.owner = none ∨ ∃ j, s.vcpus j = .callWait) : ComesToTest s i := by
  cases comes with
  | setup at_ => exact .setup (pc ▸ at_)
  | shutdown at_ => exact .shutdown (pc ▸ at_)
  | paused at_ => exact .paused (pc ▸ at_)
  | flag at_ unset => exact .flag (pc ▸ at_) (flag ▸ unset)
  | returns at_ stay => exact .returns (pc ▸ at_) stay
  | woken at_ unset woken free =>
    exact .woken (pc ▸ at_) (flag ▸ unset) (waiter ▸ woken) (lock (flag ▸ unset) free)

theorem comes_of_side (paused : s.kvm.state = .paused) (still : t.kvm.state = .paused)
    (side : VcpuSide s k e t) (comes : ComesToTest t i) : s.vcpus i = .inRun ∨ ComesToTest s i := by
  by_cases same : i = k
  · subst same
    cases side with
    | thread moves =>
      cases moves with
      | setup at_ => exact .inr (.setup at_)
      | goesOn at_ => exact .inr (.shutdown at_)
      | seesPaused at_ => exact .inr (.paused at_)
      | noFlag at_ unset => exact .inr (.flag at_ unset)
      | returns at_ stay => exact .inr (.returns at_ stay)
      | stops at_ stop => simp at still
      | passes at_ unpaused => exact absurd paused unpaused
      | wakes at_ woken unowned =>
        cases comes with
        | flag at_' unset => exact .inr (.woken at_ unset woken (.inl unowned))
        | _ at_' => simp [State.goto_vcpus] at at_'
      | waits at_ =>
        -- it has fallen asleep
        cases comes with
        | woken at_' unset woken lock => simp [CondVar.wait_waiter] at woken
        | _ at_' => simp [State.goto_vcpus] at at_'
      | ends | seesFlag | enters => cases comes <;> simp_all [State.goto_vcpus]
    | exit ret reason inside => exact .inl inside
    | interrupts sent inside => exact .inl inside
    | consumed => exact .inr (comes.of_same rfl rfl rfl fun _ lock => lock)
  · exact .inr (comes.of_same (side.frame.others i same) side.frame.paused
      (side.frame.waiters i same) fun unset => lock_of_side unset side)

theorem mayRun_of_side (paused : s.kvm.state = .paused) (still : t.kvm.state = .paused)
    (side : VcpuSide s k e t) (may : MayRun t i) : MayRun s i := by
  -- whoever is about to be inside KVM_RUN, or has been, can store MINI_KVM_SHUTDOWN
  have past (stops : Stops (t.vcpus i)) (within : t.vcpus i = .inRun ∨ t.vcpus i = .enterRun) :
      MayRun s i := by
    have before := stops_of_side paused side stops
    by_cases same : i = k
    · subst same
      cases side with
      | thread moves =>
        cases moves with
        | passes at_ unpaused => exact absurd paused unpaused
        | enters at_ => exact .enters at_
        | _ => simp [State.goto_vcpus] at within
      | exit ret reason inside | interrupts sent inside => exact .inside inside
      | consumed => exact within.elim (fun at_ => .inside at_) fun at_ => .enters at_
    · rw [side.frame.others i same] at within
      exact within.elim .inside .enters
  cases may with
  | inside at_ => exact past (by simp [at_, Stops]) (.inl at_)
  | enters at_ => exact past (by simp [at_, Stops]) (.inr at_)
  | passes comes j stops =>
    rcases comes_of_side paused still side comes with inside | comes
    · exact .inside inside
    · exact .passes comes j (stops_of_side paused side stops)

theorem MayRun.of_same (may : MayRun t i) (vcpus : t.vcpus = s.vcpus)
    (flag : t.kvm.paused = s.kvm.paused) (lock : t.kvm.pauseLock = s.kvm.pauseLock)
    (cond : t.kvm.pauseCond = s.kvm.pauseCond) : MayRun s i := by
  cases may with
  | inside at_ => exact .inside (vcpus ▸ at_)
  | enters at_ => exact .enters (vcpus ▸ at_)
  | passes comes j stops =>
    refine .passes (comes.of_same (by rw [vcpus]) flag (by rw [cond]) fun _ free => ?_) j
      (vcpus ▸ stops)
    rwa [lock, vcpus] at free

/-- Nothing brings the thread into KVM_RUN: the VM is paused and it cannot get there, or the VM is shut
down and it has only that test before it. -/
inductive KeptOut (s : State n) (i : Fin n) : Prop where
  | paused (state : s.kvm.state = .paused) (out : ¬ MayRun s i)
  | down (state : s.kvm.state = .shutdown)
    (out : s.vcpus i ≠ .testPaused ∧ s.vcpus i ≠ .enterRun ∧ s.vcpus i ≠ .inRun)

theorem KeptOut.of_same (out : KeptOut s i) (state : t.kvm.state = s.kvm.state)
    (vcpus : t.vcpus = s.vcpus) (flag : t.kvm.paused = s.kvm.paused)
    (lock : t.kvm.pauseLock = s.kvm.pauseLock) (cond : t.kvm.pauseCond = s.kvm.pauseCond) :
    KeptOut t i := by
  cases out with
  | paused here out =>
    exact .paused (state.trans here) fun may => out (may.of_same vcpus flag lock cond)
  | down here out => exact .down (state.trans here) (by rwa [vcpus])

theorem KeptOut.outside (out : KeptOut s i) : s.vcpus i ≠ .inRun := by
  cases out with
  | paused state out => exact fun at_ => out (.inside at_)
  | down state out => exact out.2.2

theorem keptOut_side (before : KeptOut s i) (side : VcpuSide s k e t) : KeptOut t i := by
  cases before with
  | paused state out =>
    rcases side.frame.state with same | down
    · have still := same.trans state
      exact .paused still fun may => out (mayRun_of_side state still side may)
    · refine .down down ?_
      cases side with
      | thread moves =>
        cases moves with
        | stops at_ stop =>
          have stops : Stops (s.vcpus k) := by simpa [at_, Stops] using stop
          have early : ¬ ComesToTest s i := fun comes => out (.passes comes k stops)
          rw [State.goto_vcpus]
          split
          · simp
          · exact ⟨fun at_ => early (.paused at_), fun at_ => out (.enters at_),
              fun at_ => out (.inside at_)⟩
        | _ => simp [state] at down
      | _ => simp [state] at down
  | down state out =>
    refine .down (side.frame.state.elim (fun same => same.trans state) id) ?_
    by_cases same : i = k
    · subst same
      cases side with
      | thread moves =>
        cases moves with
        | goesOn at_ up => exact absurd state up
        | passes at_ => exact absurd at_ out.1
        | enters at_ => exact absurd at_ out.2.1
        | _ => simp [State.goto_vcpus]
      | exit ret reason inside | interrupts sent inside => exact absurd inside out.2.2
      | consumed => exact out
    · rwa [side.frame.others i same]

/-! ## How a thread gets into KVM_RUN -/

/-- The vcpus alone get the Kvm from `s` to `t`, and nothing ends the process. -/
structure Leads (s t : State n) : Prop where
  reach : ∃ es, (∀ e ∈ es, ofVcpus e = true) ∧ (system n).run s es = some t
  main : t.main = s.main
  alive : t.killed = false

theorem Leads.refl (alive : s.killed = false) : Leads s s := ⟨⟨[], by simp, rfl⟩, rfl, alive⟩

theorem Leads.trans {u : State n} (first : Leads s t) (then_ : Leads t u) : Leads s u := by
  obtain ⟨es, of, reach⟩ := first.reach
  obtain ⟨es', of', reach'⟩ := then_.reach
  refine ⟨⟨es ++ es', ?_, ?_⟩, then_.main.trans first.main, then_.alive⟩
  · intro e member
    exact (List.mem_append.mp member).elim (of e) (of' e)
  · exact (system n).run_append.mpr ⟨t, reach, reach'⟩

theorem leads_of_step (alive : s.killed = false) (of : ofVcpus e = true) (moves : live s e = some t)
    (side : VcpuSide s i e t) : Leads s t := by
  refine ⟨⟨[e], by simpa using of, ?_⟩, side.frame.main, side.frame.killed.trans alive⟩
  exact (system n).run_cons.mpr ⟨t, step_eq_some.mpr ⟨alive, moves⟩, rfl⟩

theorem leads_of_thread (i : Fin n) (alive : s.killed = false)
    (moves : kvmVcpuThreadRun s i = some t) : Leads s t :=
  leads_of_step alive (e := .vcpu i) rfl moves (.thread (vcpuStep_of_run moves))

/-- The thread is at its test of MINI_KVM_PAUSED, with the VM paused and those that could stop it where
they were. -/
structure AtTest (s : State n) (i : Fin n) (t : State n) : Prop where
  leads : Leads s t
  test : t.vcpus i = .testPaused
  paused : t.kvm.state = .paused
  others : ∀ j, Stops (s.vcpus j) → Stops (t.vcpus j)

/-- A thread that cannot stop the VM makes a step. -/
theorem AtTest.after {u : State n} (alive : s.killed = false) (harmless : ¬ Stops (s.vcpus k))
    (moves : kvmVcpuThreadRun s k = some t) (then_ : AtTest t i u) : AtTest s i u where
  leads := (leads_of_thread k alive moves).trans then_.leads
  test := then_.test
  paused := then_.paused
  others j stops := by
    refine then_.others j ?_
    have other : j ≠ k := fun same => harmless (same ▸ stops)
    rwa [(VcpuSide.thread (vcpuStep_of_run moves)).frame.others j other]

section Coming

variable (alive : s.killed = false) (paused : s.kvm.state = .paused)

include alive paused

theorem atTest_of_shutdown (at_ : s.vcpus i = .testShutdown) : ∃ t, AtTest s i t := by
  have here : AtTest (s.goto i .testPaused) i (s.goto i .testPaused) :=
    ⟨.refl alive, by simp [State.goto_vcpus], paused, fun _ => id⟩
  exact ⟨_, .after (k := i) alive (by simp [at_, Stops])
    (by simp [kvmVcpuThreadRun, at_, paused]) here⟩

/-- From a step that leads back to the head of the loop. -/
theorem atTest_of_loop (harmless : ¬ Stops (s.vcpus i))
    (moves : kvmVcpuThreadRun s i = some (s.goto i .testShutdown)) : ∃ t, AtTest s i t := by
  obtain ⟨t, there⟩ := atTest_of_shutdown (s := s.goto i .testShutdown) (i := i) alive paused
    (by simp [State.goto_vcpus])
  exact ⟨t, there.after alive harmless moves⟩

theorem atTest_of_flag (at_ : s.vcpus i = .testFlag) (unset : s.kvm.paused = 0) :
    ∃ t, AtTest s i t :=
  atTest_of_loop alive paused (by simp [at_, Stops]) (by simp [kvmVcpuThreadRun, at_, unset])

theorem atTest_of_woken (at_ : s.vcpus i = .waiting) (unset : s.kvm.paused = 0)
    (woken : s.kvm.pauseCond.waiter i = some .woken) (free : s.kvm.pauseLock.owner = none) :
    ∃ t, AtTest s i t := by
  have moves : kvmVcpuThreadRun s i = some { s.goto i .testFlag with
      kvm := { s.kvm with
        pauseLock := ⟨some (.vcpu i)⟩
        pauseCond := s.kvm.pauseCond.leave i } } := by
    simp [kvmVcpuThreadRun, at_, woken, Mutex.lock, free]
  obtain ⟨t, there⟩ := atTest_of_flag (s := { s.goto i .testFlag with
    kvm := { s.kvm with
      pauseLock := ⟨some (.vcpu i)⟩
      pauseCond := s.kvm.pauseCond.leave i } }) (i := i) alive paused
    (by simp [State.goto_vcpus]) unset
  exact ⟨t, there.after alive (by simp [at_, Stops]) moves⟩

theorem atTest_of_comes (comes : ComesToTest s i) : ∃ t, AtTest s i t := by
  cases comes with
  | setup at_ =>
    exact atTest_of_loop alive paused (by simp [at_, Stops]) (by simp [kvmVcpuThreadRun, at_])
  | shutdown at_ => exact atTest_of_shutdown alive paused at_
  | paused at_ => exact ⟨s, .refl alive, at_, paused, fun _ => id⟩
  | flag at_ unset => exact atTest_of_flag alive paused at_ unset
  | returns at_ stay =>
    exact atTest_of_loop alive paused (by simp [at_, Stops, stay])
      (by simp [kvmVcpuThreadRun, at_, stay, UInt32.lt_iff_toNat_lt])
  | woken at_ unset woken lock =>
    rcases lock with free | ⟨k, waits⟩
    · exact atTest_of_woken alive paused at_ unset woken free
    · -- another thread gives the lock back first, as it falls asleep
      have other : i ≠ k := by
        rintro rfl
        simp [at_] at waits
      obtain ⟨t, there⟩ := atTest_of_woken (s := { s.goto k .waiting with
        kvm := { s.kvm with
          pauseLock := s.kvm.pauseLock.unlock
          pauseCond := s.kvm.pauseCond.wait k } }) (i := i) alive paused
        (by simpa [State.goto_vcpus, other] using at_) unset
        (by simpa [CondVar.wait_waiter, other] using woken) rfl
      exact ⟨t, there.after (k := k) alive (by simp [waits, Stops])
        (by simp [kvmVcpuThreadRun, waits])⟩

end Coming

/-- A thread stores MINI_KVM_SHUTDOWN. -/
structure Stopped (s : State n) (j : Fin n) (t : State n) : Prop where
  leads : Leads s t
  down : t.kvm.state = .shutdown
  others : ∀ i, i ≠ j → t.vcpus i = s.vcpus i

theorem Stopped.after {u : State n} (first : Leads s t) (others : ∀ i, i ≠ j → t.vcpus i = s.vcpus i)
    (then_ : Stopped t j u) : Stopped s j u :=
  ⟨first.trans then_.leads, then_.down, fun i other => (then_.others i other).trans (others i other)⟩

theorem stopped_of_stops (alive : s.killed = false) (stops : Stops (s.vcpus j)) :
    ∃ t, Stopped s j t := by
  have others {u : State n} (pc : VcpuPc) : ∀ i, i ≠ j → (u.goto j pc).vcpus i = u.vcpus i := by
    intro i other
    rw [State.goto_vcpus, if_neg other]
  have exited {u : State n} {ret : UInt32} {reason : ExitReason} (alive : u.killed = false)
      (at_ : u.vcpus j = .exited ret reason) (stop : reason.shutsDown = true) :
      ∃ t, Stopped u j t := by
    refine ⟨(u.setState .shutdown).goto j .testShutdown, ?_, rfl, others .testShutdown⟩
    exact leads_of_thread j alive (by simp [kvmVcpuThreadRun, at_, stop, UInt32.lt_iff_toNat_lt])
  have inside {u : State n} (alive : u.killed = false) (at_ : u.vcpus j = .inRun) :
      ∃ t, Stopped u j t := by
    have out : (u.goto j (.exited 0 .hlt)).vcpus j = .exited 0 .hlt := by simp [State.goto_vcpus]
    obtain ⟨t, stopped⟩ := exited (u := u.goto j (.exited 0 .hlt)) alive out rfl
    refine ⟨t, stopped.after ?_ (others _)⟩
    exact leads_of_step alive (e := .exit j 0 .hlt) rfl (by simp [live, exitStep, at_])
      (.exit 0 .hlt at_)
  cases pc : s.vcpus j with
  | enterRun =>
    obtain ⟨t, stopped⟩ := inside (u := s.goto j .inRun) alive (by simp [State.goto_vcpus])
    exact ⟨t, stopped.after (leads_of_thread j alive (by simp [kvmVcpuThreadRun, pc])) (others _)⟩
  | inRun => exact inside alive pc
  | exited ret reason => exact exited alive pc (by simpa [pc, Stops] using stops)
  | _ => simp [pc, Stops] at stops

theorem leads_inRun (alive : s.killed = false) (paused : s.kvm.state = .paused)
    (may : MayRun s i) : ∃ t, Leads s t ∧ t.vcpus i = .inRun := by
  have entered {u : State n} (alive : u.killed = false) (at_ : u.vcpus i = .enterRun) :
      ∃ t, Leads u t ∧ t.vcpus i = .inRun :=
    ⟨u.goto i .inRun, leads_of_thread i alive (by simp [kvmVcpuThreadRun, at_]),
      by simp [State.goto_vcpus]⟩
  cases may with
  | inside at_ => exact ⟨s, .refl alive, at_⟩
  | enters at_ => exact entered alive at_
  | passes comes j stops =>
    obtain ⟨u, there⟩ := atTest_of_comes alive paused comes
    have stops' := there.others j stops
    obtain ⟨v, stopped⟩ := stopped_of_stops there.leads.alive stops'
    have other : i ≠ j := by
      rintro rfl
      simp [there.test, Stops] at stops'
    have at_ : v.vcpus i = .testPaused := (stopped.others i other).trans there.test
    obtain ⟨w, enters, inside⟩ := entered (u := v.goto i .enterRun) stopped.leads.alive
      (by simp [State.goto_vcpus])
    have passes : Leads v (v.goto i .enterRun) := leads_of_thread i stopped.leads.alive
      (by simp [kvmVcpuThreadRun, at_, stopped.down])
    exact ⟨w, there.leads.trans (stopped.leads.trans (passes.trans enters)), inside⟩

end MiniKvm.Guarantees.CommandHazards
