import WordMachine.Proofs.GuestContainment
import WordMachine.Proofs.Switch

/-!
# Contexts that come back

A host that enters a guest waits in row zero (`HostWaits`).  A run in the guest
cannot change what is waited for, unless it writes into row zero, and the step
that leaves the guest puts the context of the host back
(`host_context_restored`).

Conversely the context of a guest that was left stays in the row of the guest.
Whatever runs in between, resuming the guest puts that context back as long as
the row holds it (`guest_context_restored`).  No table that was read earlier
comes into it, because the step that resumes the guest reads the table anew.
-/

namespace WordMachine.Machine

variable {m m' m₁ m₂ : Machine} {slot nextIp : Word} {i : ResolvedInstruction} {e : Exit}

theorem rowContext_of_memory (memory : m'.memory = m.memory)
    (table : m'.processor.guestTable = m.processor.guestTable) (slot : Word) :
    m'.rowContext slot = m.rowContext slot := by
  unfold rowContext
  rw [rowStart_congr table, memory]

/-! ## The host -/

/-- The host `m` waits in row zero of `m₁` while a guest runs, to go on at `nextIp`. -/
structure HostWaits (m : Machine) (nextIp : Word) (m₁ : Machine) : Prop where
  notHalted : m₁.status ≠ .halted
  inGuest : m₁.processor.inGuest = true
  notHost : m₁.processor.slot ≠ hostSlot
  segmentTable : m₁.processor.segmentTable = m.processor.segmentTable
  guestTable : m₁.processor.guestTable = m.processor.guestTable
  compare : m₁.processor.compare = m.processor.compare
  interruptsEnabled : m₁.processor.interruptsEnabled = m.processor.interruptsEnabled
  fits : m₁.RowFits hostSlot
  saved : m₁.rowContext hostSlot = { m.processor.toContext with ip := nextIp }

/-- The host `m` goes on at `nextIp` with a number of words on its stack. -/
structure GoesOn (m : Machine) (nextIp : Word) (words : Nat) (m' : Machine) : Prop where
  host : m'.processor.RunsHost
  /-- The selectors, the flags and the privilege level are those of the host. -/
  context : m'.processor.toContext =
    { m.processor.toContext with ip := nextIp, sp := m.processor.sp - UInt32.ofNat words }
  segmentTable : m'.processor.segmentTable = m.processor.segmentTable
  guestTable : m'.processor.guestTable = m.processor.guestTable
  compare : m'.processor.compare = m.processor.compare
  interruptsEnabled : m'.processor.interruptsEnabled = m.processor.interruptsEnabled

/-- A host that enters a guest goes on running. -/
theorem ExecutesResume.isRunning_after (executes : m.ExecutesResume i)
    (inside : (step.after m).processor.inGuest = true) : (step.after m).isRunning = true := by
  obtain ⟨m₀, same, entered⟩ := executes.entered_of_step inside
  rw [isRunning, entered.status, same.status]
  exact executes.running

/-- A host that enters a guest waits. -/
theorem ExecutesResume.hostWaits (executes : m.ExecutesResume i)
    (inside : (step.after m).processor.inGuest = true) :
    HostWaits m i.nextIp (step.after m) := by
  obtain ⟨m₀, same, entered⟩ := executes.entered_of_step inside
  have start : m₀.processor = _ := same.processor.trans (processor_begun m)
  have processor : (step.after m).processor =
      { m.processor with
        toContext := m₀.rowContext i.first, counter := m.begun.processor.counter
        interrupt := m.begun.processor.interrupt, inGuest := true, slot := i.first } := by
    rw [entered.processor, start]
    rfl
  have table : (step.after m).processor.guestTable = m₀.processor.guestTable := by
    rw [processor, start]
  exact {
    notHalted := by
      intro halted
      simpa [isRunning, halted] using executes.isRunning_after inside
    inGuest := inside
    notHost := by
      rw [processor]
      exact entered.notHost
    segmentTable := by rw [processor]
    guestTable := by rw [processor]
    compare := by rw [processor]
    interruptsEnabled := by
      rw [processor]
      exact interruptsEnabled_begun m
    fits := by
      unfold RowFits
      rw [rowStart_congr table]
      exact entered.hostFits
    saved := by
      rw [entered.rowContext_host, start] }

/-- A run in the guest that leaves row zero alone lets the host wait. -/
theorem HostWaits.contained (h : HostWaits m nextIp m₁) (contained : Contained m₁ m₂)
    (inside : m₂.processor.inGuest = true)
    (kept : ∀ a, m₁.InRow hostSlot a → m₂.memory.get a = m₁.memory.get a) :
    HostWaits m nextIp m₂ where
  notHalted := contained.notHalted
  inGuest := inside
  notHost := by
    rw [show m₂.processor.slot = m₁.processor.slot from
      congrArg GuestPart.slot (contained.guestPart inside)]
    exact h.notHost
  segmentTable := contained.segmentTable.trans h.segmentTable
  guestTable := contained.guestTable.trans h.guestTable
  compare := contained.compare.trans h.compare
  interruptsEnabled := contained.interruptsEnabled.trans h.interruptsEnabled
  fits := by
    unfold RowFits
    rw [rowStart_congr contained.guestTable]
    exact h.fits
  saved := (rowContext_congr contained.guestTable h.fits kept).trans h.saved

/-- When the guest is left, the host goes on. -/
theorem HostWaits.goesOn {running : Bool} (h : HostWaits m nextIp m₁)
    (stepped : step m₁ = .ok running m') (left : m'.processor.inGuest = false) :
    ∃ e, m₁.exit? = some e ∧ GoesOn m nextIp (2 + e.extra.length) m' := by
  have guest := Processor.guest_of_inGuest h.inGuest
  obtain ⟨e, exits, leaves⟩ := exit_of_step guest stepped left
  have processor := processor_of_leaveFor ((guest_atExit exits).trans guest) h.notHost leaves
  have saved : m₁.atExit.rowContext hostSlot = { m.processor.toContext with ip := nextIp } :=
    (rowContext_of_memory (memory_atExit exits) (guestTable_atExit exits) hostSlot).trans h.saved
  have contained := (step_contained h.inGuest h.notHalted).1
  rw [Action.after_of_ok stepped] at contained
  refine ⟨e, exits, ?_, ?_, contained.segmentTable.trans h.segmentTable,
    contained.guestTable.trans h.guestTable, contained.compare.trans h.compare,
    contained.interruptsEnabled.trans h.interruptsEnabled⟩
  · rw [processor]
    exact ⟨rfl, rfl⟩
  · rw [processor, saved]
    rfl

/-- A host that enters a guest gets its context back when the guest is left, whatever the guest does
in between, unless it writes into row zero. -/
theorem host_context_restored {running : Bool} (executes : m.ExecutesResume i) (n : Nat)
    (inside : ∀ k ≤ n, (afterSteps k (step.after m)).processor.inGuest = true)
    (kept : ∀ a, m.InRow hostSlot a →
      (afterSteps n (step.after m)).memory.get a = (step.after m).memory.get a)
    (stepped : step.outcome (afterSteps n (step.after m)) = .ok running)
    (left : (afterSteps (n + 1) (step.after m)).processor.inGuest = false) :
    ∃ e, (afterSteps n (step.after m)).exit? = some e ∧
      GoesOn m i.nextIp (2 + e.extra.length) (afterSteps (n + 1) (step.after m)) := by
  have waits := executes.hostWaits (inside 0 n.zero_le)
  obtain ⟨contained, -⟩ := run_contained (executes.isRunning_after (inside 0 n.zero_le)) n
    fun k small => inside k (Nat.le_of_lt small)
  have stillWaits := waits.contained contained (inside n (Nat.le_refl n)) fun a inRow =>
    kept a ((inRow_congr waits.guestTable hostSlot a).mp inRow)
  exact stillWaits.goesOn (Action.eq_ok_of_outcome stepped) left

/-- A property of the addresses in a row is checked one by one. -/
theorem forall_inRow {p : Word → Prop}
    (holds : ∀ k < Context.rowWidth, p (UInt32.ofNat (m.rowStart slot + k))) (a : Word)
    (inRow : m.InRow slot a) : p a := by
  obtain ⟨low, high⟩ := inRow
  have at_a := holds (a.toNat - m.rowStart slot) (by omega)
  rwa [Nat.add_sub_cancel' low, UInt32.ofNat_toNat] at at_a

/-- The sample guest does nothing once, and then tries to halt. -/
theorem host_context_restored_resumingHost :
    resumingHost.ExecutesResume resumeSample ∧
      (∀ k ≤ 1, (afterSteps k (step.after resumingHost)).processor.inGuest = true) ∧
      (∀ a, resumingHost.InRow hostSlot a →
        (afterSteps 1 (step.after resumingHost)).memory.get a =
          (step.after resumingHost).memory.get a) ∧
      step.outcome (afterSteps 1 (step.after resumingHost)) = .ok true ∧
      (afterSteps 2 (step.after resumingHost)).processor.inGuest = false ∧
      ∃ e, (afterSteps 1 (step.after resumingHost)).exit? = some e ∧
        GoesOn resumingHost 0x12 (2 + e.extra.length) (afterSteps 2 (step.after resumingHost)) := by
  have inside : ∀ k ≤ 1, (afterSteps k (step.after resumingHost)).processor.inGuest = true := by
    decide +kernel
  have kept : ∀ a, resumingHost.InRow hostSlot a →
      (afterSteps 1 (step.after resumingHost)).memory.get a =
        (step.after resumingHost).memory.get a :=
    forall_inRow (by decide +kernel)
  have stepped : step.outcome (afterSteps 1 (step.after resumingHost)) = .ok true := by
    decide +kernel
  have left : (afterSteps 2 (step.after resumingHost)).processor.inGuest = false := by
    decide +kernel
  have two : afterSteps 2 (step.after resumingHost) = afterSteps (1 + 1) (step.after resumingHost) :=
    rfl
  exact ⟨resumingHost_executes, inside, kept, stepped, left,
    host_context_restored resumingHost_executes 1 inside kept stepped (two ▸ left)⟩

/-! ## The guest -/

/-- The machine once the exit has saved the guest. -/
def savedAtExit (m : Machine) (slot : Word) (e : Exit) : Machine :=
  (saveSlot slot).after (m.atExit.goto e.resumeIp)

/-- An exit that succeeds puts the context of the guest in its row. -/
theorem rowContext_savedAtExit {running : Bool} (isRunning : m.isRunning = true)
    (guest : m.processor.guest = some slot) (exits : m.exit? = some e)
    (stepped : step m = .ok running m') :
    (m.savedAtExit slot e).processor.guestTable = m.processor.guestTable ∧
      (m.savedAtExit slot e).RowFits slot ∧
      (m.savedAtExit slot e).rowContext slot =
        { m.atExit.processor.toContext with ip := e.resumeIp } := by
  have leaves := leaveFor_of_step isRunning guest exits stepped
  obtain ⟨saved, fits, -⟩ := (leaveFor_ends_of_guest ((guest_atExit exits).trans guest)).ok leaves
  unfold savedAtExit
  rw [Action.after_of_ok saved]
  exact ⟨guestTable_atExit exits, fits, rowContext_withSaved (m := m.atExit.goto e.resumeIp) fits⟩

/-- A guest that was left gets its context back when it is resumed, whatever ran in between, if its
row still holds what the exit saved. -/
theorem guest_context_restored (guest : m.processor.guest = some slot) (exits : m.exit? = some e)
    (stepped : step.outcome m = .ok true) (n : Nat)
    (table : (afterSteps n (step.after m)).processor.guestTable = m.processor.guestTable)
    (kept : ∀ a, m.InRow slot a →
      (afterSteps n (step.after m)).memory.get a = (m.savedAtExit slot e).memory.get a)
    (executes : (afterSteps n (step.after m)).ExecutesResume i) (same : i.first = slot)
    (inside : (afterSteps (n + 1) (step.after m)).processor.inGuest = true) :
    (afterSteps (n + 1) (step.after m)).processor.guest = some slot ∧
      (afterSteps (n + 1) (step.after m)).processor.toContext =
        { m.atExit.processor.toContext with ip := e.resumeIp } := by
  have isRunning : m.isRunning = true := by
    by_contra stopped
    simp [Action.outcome, step_of_not_isRunning (by simpa using stopped)] at stepped
  obtain ⟨savedTable, fits, saved⟩ :=
    rowContext_savedAtExit isRunning guest exits (Action.eq_ok_of_outcome stepped)
  obtain ⟨m₀, untouched, entered⟩ := executes.entered_of_step inside
  subst same
  have row : m₀.rowContext i.first = (m.savedAtExit i.first e).rowContext i.first := by
    have table₀ : m₀.processor.guestTable = (m.savedAtExit i.first e).processor.guestTable := by
      rw [savedTable, ← table, untouched.processor, processor_begun]
    refine rowContext_congr table₀ fits fun a inRow => ?_
    rw [untouched.memory]
    exact kept a ((inRow_congr savedTable i.first a).mp inRow)
  have processor : (afterSteps (n + 1) (step.after m)).processor = _ := entered.processor
  rw [processor, row, saved]
  exact ⟨rfl, rfl⟩

/-- A guest in flat memory that halts.  The host that it leaves writes into the guest table and then
resumes the guest. -/
def returningGuest : Machine where
  processor :=
    { cs := 1, ds := 2, es := 3, ss := 4, rs := 5, sp := 0x280, flags := ⟨0xF0000001⟩, privilege := 1
      guestTable := 0x500, inGuest := true, slot := 1 }
  memory :=
    (Memory.empty.place 0
      [Instruction.encode ⟨.halt, 0, []⟩,
        Instruction.encode ⟨.mov, 0, [⟨.singleDs, Fin.last 31⟩, ⟨.immediate, Fin.last 31⟩]⟩, 0x507, 7,
        Instruction.encode ⟨.vmResume, 0, [⟨.immediate, Fin.last 31⟩]⟩, 1]).place
      0x500 (({ ip := 1, sp := 0x300 } : Context).toRow.toList ++ ({} : Context).toRow.toList)

def haltingExit : Exit := ⟨Interrupt.guestTrap, .halt, 1, []⟩

def resumeReturning : ResolvedInstruction := ⟨.vmResume, 4, 6, [⟨1, none⟩]⟩

theorem returningGuest_executes :
    (afterSteps 1 (step.after returningGuest)).ExecutesResume resumeReturning where
  running := by decide +kernel
  host := by decide +kernel
  quiet := by decide +kernel
  prepared := by decide +kernel
  opcode := rfl

theorem guest_context_restored_returningGuest :
    returningGuest.processor.guest = some 1 ∧ returningGuest.exit? = some haltingExit ∧
      step.outcome returningGuest = .ok true ∧
      (afterSteps 1 (step.after returningGuest)).processor.guestTable = 0x500 ∧
      (∀ a, returningGuest.InRow 1 a →
        (afterSteps 1 (step.after returningGuest)).memory.get a =
          (returningGuest.savedAtExit 1 haltingExit).memory.get a) ∧
      (afterSteps 1 (step.after returningGuest)).ExecutesResume resumeReturning ∧
      resumeReturning.first = 1 ∧
      (afterSteps 2 (step.after returningGuest)).processor.inGuest = true ∧
      (afterSteps 2 (step.after returningGuest)).processor.guest = some 1 ∧
      (afterSteps 2 (step.after returningGuest)).processor.toContext =
        { returningGuest.atExit.processor.toContext with ip := 1 } := by
  have exits : returningGuest.exit? = some haltingExit := by decide +kernel
  have stepped : step.outcome returningGuest = .ok true := by decide +kernel
  have table : (afterSteps 1 (step.after returningGuest)).processor.guestTable = 0x500 := by
    decide +kernel
  have kept : ∀ a, returningGuest.InRow 1 a →
      (afterSteps 1 (step.after returningGuest)).memory.get a =
        (returningGuest.savedAtExit 1 haltingExit).memory.get a :=
    forall_inRow (by decide +kernel)
  have inside : (afterSteps 2 (step.after returningGuest)).processor.inGuest = true := by
    decide +kernel
  exact ⟨rfl, exits, stepped, table, kept, returningGuest_executes, rfl, inside,
    guest_context_restored rfl exits stepped 1 table kept returningGuest_executes rfl inside⟩

end WordMachine.Machine
