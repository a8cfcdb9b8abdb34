import MiniKvm.Source.Printing

/-!
# The output of the status client

What status_handle_command_result prints of the replies to -r and -m, as a format that can be read: the
vcpus that are shown, with every register under its name, or that the VM is not paused. Nothing is lost
or run together, whichever vcpus are selected and whatever their registers are.
-/
namespace MiniKvm.Guarantees.StatusOutput
open Lib Source Source.Printing Source.StatusRegs
open Boot (KvmRegs)

/-! ## Registers -/

def register : Format UInt64 :=
  .hexOfWidth 16 .ofNat UInt64.toNat (fun _ => UInt64.ofNat_toNat) (Nat.succ_pos 15)
    fun v => UInt64.toNat_lt v

/-- The names of the general registers, in the order of the lines. -/
def regNames : List (List Char) :=
  ["rax 0x".toList, "\trbx 0x".toList, "\trcx 0x".toList, "\trdx 0x".toList,
    "\n".toList ++ "r8  0x".toList, "\tr9  0x".toList, "\tr10 0x".toList, "\tr11 0x".toList,
    "\n".toList ++ "r12 0x".toList, "\tr13 0x".toList, "\tr14 0x".toList, "\tr15 0x".toList,
    "\n".toList ++ "rsp 0x".toList, "\trbp 0x".toList, "\trip 0x".toList, "\trflags 0x".toList,
    "\n".toList ++ "rdi 0x".toList, "\trsi 0x".toList]

def regs : Format KvmRegs :=
  ((register.fields (fun _ => trivial) regNames).before "\n".toList fun _ => trivial).imap
    (fun (v : Fin 18 → UInt64) =>
      { rax := v 0, rbx := v 1, rcx := v 2, rdx := v 3, r8 := v 4, r9 := v 5, r10 := v 6, r11 := v 7,
        r12 := v 8, r13 := v 9, r14 := v 10, r15 := v 11, rsp := v 12, rbp := v 13, rip := v 14,
        rflags := v 15, rdi := v 16, rsi := v 17 })
    (fun regs => ![regs.rax, regs.rbx, regs.rcx, regs.rdx, regs.r8, regs.r9, regs.r10, regs.r11,
      regs.r12, regs.r13, regs.r14, regs.r15, regs.rsp, regs.rbp, regs.rip, regs.rflags, regs.rdi,
      regs.rsi])
    fun _ => rfl

def sregs : Format ControlRegs :=
  ((register.fields (fun _ => trivial) ["cr0 0x".toList, "\tcr2 0x".toList, "\tcr3 0x".toList,
    "\tcr4 0x".toList]).before "\n".toList fun _ => trivial).imap
    (fun (v : Fin 4 → UInt64) => ⟨v 0, v 1, v 2, v 3⟩)
    (fun sregs => ![sregs.cr0, sregs.cr2, sregs.cr3, sregs.cr4])
    fun _ => rfl

theorem print_sregs (values : ControlRegs) : sregs.print values = miniKvmPrintSregs values := by
  unfold miniKvmPrintSregs
  simp only [sregs, Format.imap, Format.before, Format.fields, Format.seq, Format.after,
    List.append_assoc]
  rfl

theorem print_regs (values : KvmRegs) : regs.print values = miniKvmPrintRegs values := by
  unfold miniKvmPrintRegs
  simp only [regs, regNames, Format.imap, Format.before, Format.fields, Format.seq, Format.after,
    List.append_assoc]
  rfl

/-! ## The output -/

/-- What is shown of a reply. -/
inductive Shown where
  | report (report : Report KvmRegs ControlRegs)
  | notPaused
  deriving DecidableEq

def index : Format Nat := .decimal 1 id id fun _ => rfl

/-- The registers of a vcpu, under its two headings. -/
def report : Format (Report KvmRegs ControlRegs) :=
  ((((index.before " regs\n".toList fun _ => rfl).after "VCPU ".toList).seq
      (regs.before "\n".toList fun _ => trivial) fun _ _ _ => trivial).seq
    (((index.before " sregs\n".toList fun _ => rfl).after "VCPU ".toList).seq sregs
      fun _ _ _ => trivial) fun _ _ _ => trivial).imap
    (fun parts => ⟨parts.1.1, parts.1.2, parts.2.2⟩)
    (fun report => ((report.index, report.regs), (report.index, report.sregs)))
    fun _ => rfl

theorem print_report (shown : Report KvmRegs ControlRegs) :
    report.print shown = reportText shown := by
  change ("VCPU ".toList ++ (lu shown.index ++ " regs\n".toList) ++
    (regs.print shown.regs ++ "\n".toList)) ++
      ("VCPU ".toList ++ (lu shown.index ++ " sregs\n".toList) ++ sregs.print shown.sregs) = _
  rw [print_regs, print_sregs]
  unfold reportText
  simp only [List.append_assoc]

def shown (name : List Char) : Format Shown :=
  (report.either (Format.literal (notPausedText name)) "VC".toList.isPrefixOf (fun _ _ => rfl)
    fun _ _ => rfl).imap
    (Sum.elim Shown.report fun _ => Shown.notPaused)
    (fun
      | .report r => .inl r
      | .notPaused => .inr ())
    fun
      | .report _ => rfl
      | .notPaused => rfl

def output (name : List Char) : Format (List Shown) :=
  (shown name).many List.isEmpty (fun _ => ⟨trivial, trivial⟩)
    (fun
      | .report _, _ => rfl
      | .notPaused, _ => rfl)
    fun
      | .report _ => List.cons_ne_nil _ _
      | .notPaused => List.cons_ne_nil _ _

/-- The reports of a reply, or that the VM is not paused. -/
def shownOf (res : MiniKvmStatusResult KvmRegs ControlRegs) : List Shown :=
  if res.error = .statusCmdVmNotPaused then [.notPaused]
  else (StatusRegs.statusHandleCommandResult res).1.map .report

theorem print_reports (name : List Char) (reports : List (Report KvmRegs ControlRegs)) :
    (output name).print (reports.map .report) = reports.flatMap reportText := by
  change (reports.map Shown.report).flatMap (shown name).print = _
  rw [List.flatMap_map]
  exact List.flatMap_congr fun r _ => print_report r

/-- It prints what the client does. -/
theorem print_shownOf (name : List Char) {res : MiniKvmStatusResult KvmRegs ControlRegs}
    (query : res.cmdType ≠ .showState) :
    (output name).print (shownOf res) = Printing.statusHandleCommandResult name res := by
  unfold shownOf
  split
  · next notPaused =>
    unfold Printing.statusHandleCommandResult
    rw [notPaused]
    exact List.append_nil _
  · next other =>
    rw [print_reports]
    unfold Printing.statusHandleCommandResult StatusRegs.statusHandleCommandResult
    cases error : res.error with
    | success =>
      cases type : res.cmdType with
      | showState => exact absurd type query
      | _ => rfl
    | statusCmdVmNotPaused => exact absurd error other
    | _ => rfl

theorem print_flatMap (name : List Char)
    {replies : List (MiniKvmStatusResult KvmRegs ControlRegs)}
    (queries : ∀ res ∈ replies, res.cmdType ≠ .showState) :
    (output name).print (replies.flatMap shownOf) = miniKvmStatusOutput name replies := by
  change (replies.flatMap shownOf).flatMap (shown name).print = _
  rw [List.flatMap_assoc]
  exact List.flatMap_congr fun res member => print_shownOf name (queries res member)

/-- What the client prints of the replies to its -r and -m options tells the vcpus that were selected,
and each of their registers, reply by reply. -/
theorem output_read_back (name : List Char)
    {replies : List (MiniKvmStatusResult KvmRegs ControlRegs)}
    (queries : ∀ res ∈ replies, res.cmdType ≠ .showState) :
    (output name).parse (miniKvmStatusOutput name replies) = some (replies.flatMap shownOf) := by
  rw [← print_flatMap name queries]
  exact (output name).parse_print rfl _

theorem two_replies_read_back :
    let res : MiniKvmStatusResult KvmRegs ControlRegs :=
      ⟨.showRegs, .success, 5, .replicate _ { (default : KvmRegs) with rip := 0x4000 },
        .replicate _ ⟨1, 0, 0x1000, 0x20⟩, .paused⟩
    let replies := [res, { res with error := .statusCmdVmNotPaused }]
    (output "vm".toList).parse (miniKvmStatusOutput "vm".toList replies) =
      some (replies.flatMap shownOf) :=
  output_read_back "vm".toList (by simp)

end MiniKvm.Guarantees.StatusOutput
