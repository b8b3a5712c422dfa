import WordMachine.Proofs.Switch

/-!
# Resuming a guest that is missing

`VMRESUME` checks the slot against the guest table that the machine knows, and
refuses a slot that is missing there.  Then it saves the host, which makes the
machine forget the table, and looks the slot up in the table in memory.

If the machine knows the table as it lies in memory, and the row of the host
does not end the table, the two agree.  Then a step that executes `VMRESUME`
enters the guest, or delivers the fault, or finds no table that can be read
(`resume_of_current`).  If a program edits the table after it was read, the two
differ, and the machine stops with an unknown slot
(`unknownGuestSlot_of_edited_table`).
-/

namespace WordMachine.Machine

variable {m m' : Machine} {slot : Word} {i : ResolvedInstruction} {rows : List Context}

/-! ## Performing VMRESUME -/

/-- The guest table lacks a slot: none is installed, or the row is that of the host or beyond the
table. -/
def Lacks (m : Machine) (slot : Word) : Prop :=
  m.processor.hasGuestTable = false ∨
    ∃ rows, m.memory.guestTable m.processor.guestTable = .ok rows ∧
      (slot = hostSlot ∨ rows.length ≤ slot.toNat)

theorem performResume_of_lacks (host : m.processor.inGuest = false) (current : m.GuestsCurrent)
    (lacks : m.Lacks i.first) :
    ∃ guests, performResume i m =
      .error (.fault (.invalidGuestSlot i.first)) { m with guests } := by
  rcases lacks with uninstalled | ⟨rows, table, missing⟩
  · refine ⟨m.guests, (performResume_of_rows host (guestRows_of_uninstalled uninstalled)).trans ?_⟩
    exact if_pos (.inr (Nat.zero_le _))
  · refine ⟨⟨some rows⟩, (performResume_of_rows host (guestRows_of_table current table)).trans ?_⟩
    exact if_pos missing

/-- A guest whose row is there is entered, if the row of the host does not end the table. -/
theorem performResume_of_table (host : m.processor.inGuest = false) (current : m.GuestsCurrent)
    (table : m.memory.guestTable m.processor.guestTable = .ok rows)
    (notHost : i.first ≠ hostSlot) (known : i.first.toNat < rows.length)
    (goesOn : ({ m.processor.toContext with ip := i.nextIp } : Context).toRow ≠
      terminator Context.rowWidth) :
    ∃ rows' context, performResume i m =
      .ok { control := .redirected } ((m.suspended i).toGuest rows' i.first context) := by
  have checked := performResume_of_rows (i := i) host (guestRows_of_table current table)
  rw [if_neg (not_or.mpr ⟨notHost, Nat.not_le.mpr known⟩)] at checked
  -- The check remembers the table, and saving the host makes the machine forget it again.
  have remembered : (Machine.goto { m with guests := ⟨some rows⟩ } i.nextIp).GuestsCurrent := by
    intro rows' _ kept
    obtain rfl : rows = rows' := Option.some.inj kept
    exact table
  have some_row : 0 < rows.length := Nat.zero_lt_of_lt known
  have saved : saveHostSlot (Machine.goto { m with guests := ⟨some rows⟩ } i.nextIp) =
      .ok () (m.suspended i) := saveSlot_of_table remembered table some_row
  have table' := @guestTable_withSaved (m.goto i.nextIp) hostSlot rows table some_row goesOn
  have found := slotContext_of_table i.first (current_withSaved (m.goto i.nextIp) hostSlot) table'
    (List.getElem?_eq_getElem (by simpa using known))
  have enters : enterGuest i.first (m.suspended i) = _ := Action.bind_of_ok found _
  exact ⟨_, _, checked.trans ((Action.bind_of_ok (Action.lift_of_ok saved) _).trans
    (Action.bind_of_ok (Action.lift_of_ok enters) _))⟩

/-! ## Steps -/

/-- How a step of the host that executes `VMRESUME` ends, by the guest table in memory. -/
inductive ResumeStep (m : Machine) (i : ResolvedInstruction) : Prop
  /-- The table has the slot, and the guest is entered. -/
  | entered (rows : List Context)
      (table : m.memory.guestTable m.processor.guestTable = .ok rows)
      (notHost : i.first ≠ hostSlot) (known : i.first.toNat < rows.length)
      (outcome : step.outcome m = .ok true)
      (guest : (step.after m).processor.guest = some i.first)
  /-- The slot is missing.  The instruction has no effect but an interrupt. -/
  | missing (lacks : m.Lacks i.first)
      (outcome : (executeAt m.processor.ip).outcome m.begun =
        .error (.fault (.invalidGuestSlot i.first)))
      (untouched : Untouched m.begun ((executeAt m.processor.ip).after m.begun))
      (delivered : step m =
        conclude (raiseInterrupt Interrupt.invalidInstruction m.processor.ip [])
          ((executeAt m.processor.ip).after m.begun))
  /-- No table can be read. -/
  | unreadable (e : FatalError) (installed : m.processor.hasGuestTable = true)
      (table : m.memory.guestTable m.processor.guestTable = .error e)
      (outcome : step.outcome m = .error e)

/-- The instruction of the step, on a machine that knows the same table. -/
theorem ExecutesResume.executeAt_eq_of_current (executes : m.ExecutesResume i)
    (current : m.GuestsCurrent) :
    ∃ m₀, Untouched m.begun m₀ ∧ m₀.processor.inGuest = false ∧ m₀.GuestsCurrent ∧
      m₀.processor.hasGuestTable = m.processor.hasGuestTable ∧
      m₀.memory.guestTable m₀.processor.guestTable =
        m.memory.guestTable m.processor.guestTable ∧
      executeAt m.processor.ip m.begun =
        match performResume i m₀ with
        | .ok _ m' => .ok () m'
        | .error e m' => .error e m' := by
  obtain ⟨m₀, same, guests, -, eq⟩ := executes.executeAt_eq
  have processor : m₀.processor = _ := same.processor.trans (processor_begun m)
  have host : m₀.processor.inGuest = false := by
    rw [same.processor, inGuest_begun, executes.host]
  have installed : m₀.processor.hasGuestTable = m.processor.hasGuestTable := by
    rw [processor]
    rfl
  have table : m₀.memory.guestTable m₀.processor.guestTable =
      m.memory.guestTable m.processor.guestTable := by
    rw [same.memory, processor]
    rfl
  refine ⟨m₀, same, host, ?_, installed, table, eq⟩
  unfold GuestsCurrent
  rw [table, installed, guests]
  exact current

theorem ResumeStep.of_lacks (executes : m.ExecutesResume i) (current : m.GuestsCurrent)
    (lacks : m.Lacks i.first) : ResumeStep m i := by
  obtain ⟨m₀, same, host, current₀, installed, table, eq⟩ :=
    executes.executeAt_eq_of_current current
  have lacks₀ : m₀.Lacks i.first := by
    unfold Lacks
    rw [table, installed]
    exact lacks
  obtain ⟨guests, faulted⟩ := performResume_of_lacks host current₀ lacks₀
  simp only [faulted] at eq
  have after := Action.after_of_error eq
  refine .missing lacks (by simp only [Action.outcome, eq]) ?_ ?_
  · rw [after]
    exact same.trans ⟨rfl, rfl, rfl, rfl, rfl⟩
  · rw [step_of_fault executes.running executes.quiet eq, after]
    rfl

theorem ResumeStep.of_table (executes : m.ExecutesResume i) (current : m.GuestsCurrent)
    (table : m.memory.guestTable m.processor.guestTable = .ok rows)
    (notHost : i.first ≠ hostSlot) (known : i.first.toNat < rows.length)
    (goesOn : ({ m.processor.toContext with ip := i.nextIp } : Context).toRow ≠
      terminator Context.rowWidth) : ResumeStep m i := by
  obtain ⟨m₀, same, host, current₀, -, table₀, eq⟩ := executes.executeAt_eq_of_current current
  have goesOn₀ : ({ m₀.processor.toContext with ip := i.nextIp } : Context).toRow ≠
      terminator Context.rowWidth := by
    rw [same.processor, processor_begun]
    exact goesOn
  obtain ⟨rows', context, entered⟩ :=
    performResume_of_table host current₀ (table₀.trans table) notHost known goesOn₀
  simp only [entered] at eq
  have stepped := step_of_ok executes.running executes.quiet eq
  have running : ((m₀.suspended i).toGuest rows' i.first context).isRunning = true := by
    show decide (m₀.status = .running) = true
    rw [same.status]
    exact executes.running
  refine .entered rows table notHost known ?_ ?_
  · simp only [Action.outcome, stepped, running]
  · rw [Action.after_of_ok stepped]
    rfl

theorem ResumeStep.of_unreadable {e : FatalError} (executes : m.ExecutesResume i)
    (current : m.GuestsCurrent) (installed : m.processor.hasGuestTable = true)
    (unreadable : m.memory.guestTable m.processor.guestTable = .error e) : ResumeStep m i := by
  obtain ⟨m₀, -, host, current₀, installed₀, table₀, eq⟩ :=
    executes.executeAt_eq_of_current current
  have fails := performResume_of_unreadable (i := i) host
    (guestRows_of_unreadable current₀ (installed₀.trans installed) (table₀.trans unreadable))
  simp only [fails] at eq
  refine .unreadable e installed unreadable ?_
  simp only [Action.outcome, step_of_fatal executes.running executes.quiet eq]

/-- If the machine knows the guest table as it lies in memory, and the row of the host does not end
the table, then `VMRESUME` either enters the guest or is a recoverable fault. -/
theorem resume_of_current (executes : m.ExecutesResume i) (current : m.GuestsCurrent)
    (goesOn : ({ m.processor.toContext with ip := i.nextIp } : Context).toRow ≠
      terminator Context.rowWidth) : ResumeStep m i := by
  cases installed : m.processor.hasGuestTable with
  | false => exact .of_lacks executes current (.inl installed)
  | true =>
    cases table : m.memory.guestTable m.processor.guestTable with
    | error e => exact .of_unreadable executes current installed table
    | ok rows =>
      by_cases missing : i.first = hostSlot ∨ rows.length ≤ i.first.toNat
      · exact .of_lacks executes current (.inr ⟨rows, table, missing⟩)
      · obtain ⟨notHost, known⟩ := not_or.mp missing
        exact .of_table executes current table notHost (Nat.not_le.mp known) goesOn

theorem resume_of_current_resumingHost :
    resumingHost.ExecutesResume resumeSample ∧ resumingHost.GuestsCurrent ∧
      ({ resumingHost.processor.toContext with ip := 0x12 } : Context).toRow ≠
        terminator Context.rowWidth ∧
      ResumeStep resumingHost resumeSample := by
  have current : resumingHost.GuestsCurrent := by
    intro rows _ kept
    obtain rfl : sampleContexts = rows := Option.some.inj kept
    decide +kernel
  have goesOn : ({ resumingHost.processor.toContext with ip := 0x12 } : Context).toRow ≠
      terminator Context.rowWidth := by decide
  exact ⟨resumingHost_executes, current, goesOn,
    resume_of_current resumingHost_executes current goesOn⟩

/-! ## An edited table -/

/-- A program that installs the guest table behind it and asks for slot zero.  The interrupt takes it
to code that ends the table before row one and then asks for slot one. -/
def editingProgram : List Word :=
  [Instruction.encode ⟨.mov, 0,
      [⟨.control, ControlRegister.guestTable.index, by decide⟩, ⟨.immediate, Fin.last 31⟩]⟩, 0x10,
    Instruction.encode ⟨.vmResume, 0, [⟨.immediate, Fin.last 31⟩]⟩, 0,
    Instruction.encode ⟨.mov, 0, [⟨.singleDs, Fin.last 31⟩, ⟨.immediate, Fin.last 31⟩]⟩, 0x19,
    Word.allOnes,
    Instruction.encode ⟨.vmResume, 0, [⟨.immediate, Fin.last 31⟩]⟩, 1,
    0, 0, 0, 0, 0, 0, 0,
    0, 0, 0, 0, 0, 0, 0, 0, 0, 0]

/-- The machine with that program loaded. -/
def editingHost : Machine := { memory := Memory.empty.place 0 editingProgram }

def resumeEdited : ResolvedInstruction := ⟨.vmResume, 7, 9, [⟨1, none⟩]⟩

/-- The fourth step of the program asks for a slot that the table in memory lacks.  The table that is
kept still has it, so the host is saved, and then the machine stops. -/
theorem unknownGuestSlot_of_edited_table :
    initial.load editingProgram = .ok editingHost ∧
      (afterSteps 3 editingHost).ExecutesResume resumeEdited ∧
      (afterSteps 3 editingHost).Lacks 1 ∧
      step.outcome (afterSteps 3 editingHost) = .error (.unknownGuestSlot 1) := by
  have loads : initial.load editingProgram = .ok editingHost := by
    unfold load
    rw [Memory.writeBlock_eq (by decide) (by decide)]
    rfl
  have executes : (afterSteps 3 editingHost).ExecutesResume resumeEdited := {
    running := by decide +kernel
    host := by decide +kernel
    quiet := by decide +kernel
    prepared := by decide +kernel
    opcode := rfl }
  have table : (afterSteps 3 editingHost).memory.guestTable
      (afterSteps 3 editingHost).processor.guestTable = .ok [{}] := by decide +kernel
  have stops : step.outcome (afterSteps 3 editingHost) = .error (.unknownGuestSlot 1) := by
    decide +kernel
  exact ⟨loads, executes, .inr ⟨[{}], table, .inr (by decide)⟩, stops⟩

end WordMachine.Machine
