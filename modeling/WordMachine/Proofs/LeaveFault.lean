import WordMachine.Proofs.InterruptDelivery
import WordMachine.Proofs.StackSteps

/-!
# What a LEAVE that faults leaves behind

Every other instruction that ends with a fault leaves the processor as it was.
`LEAVE` moves the stack pointer to the frame before it pops the frame pointer, and
does not take the move back if the pop fails.  It fails if the frame lies outside
of the stack segment.  `leftSp` is the stack pointer that is left, and
`LeaveFaulted` says that nothing else has changed.  In particular the frame
pointer stays.  Since `LEAVE` does not look at the stack pointer it finds, it comes
to the same when it is executed again (`executeAt_withSp_of_leave`).

The fault is delivered on what is left.  In the host the frame of the interrupt
lies below the stack pointer that `LEAVE` left, over words of the program if the
frame was above its stack.  In a guest that stack pointer is saved in the row of
the guest (`step_of_leave_fault`).
-/

namespace WordMachine.Machine

variable {m m' : Machine} {ip slot : Word} {d : Instruction} {f : Fault}

/-! ## Executing LEAVE -/

/-- An instruction that is fetched is one that the machine with its segment table read decodes. -/
theorem decodes_of_fetched (fetched : (fetchInstruction ip).outcome m = .ok d) :
    m.mapped.Settled ∧ m.mapped.Decodes ip d := by
  have ran := Action.eq_ok_of_outcome fetched
  rcases settled_mapped_or m with settled | ⟨e, failed⟩
  · rw [fetchInstruction_mapped] at ran
    obtain ⟨-, decoded⟩ := (fetchInstruction_ends settled ip).ok ran
    refine ⟨settled, ?_, decoded⟩
    by_contra missed
    have address := translate_eq settled .code ip
    rw [if_neg missed] at address
    have fails : fetchInstruction ip m.mapped = _ :=
      Action.bind_of_error (Action.bind_of_error address _) _
    rw [fails] at ran
    cases ran
  · have fails : fetchInstruction ip m = .error (.fatal e) m :=
      Action.bind_of_error (Action.bind_of_error (failed .code ip) _) _
    rw [fails] at ran
    cases ran

/-- What executing `LEAVE` comes to. -/
theorem executeAt_of_leave (settled : m.Settled) (decodes : m.Decodes ip d)
    (opcode : d.opcode = .leave) :
    executeAt ip m =
      if m.processor.privilege < d.privilege.toUInt32 then
        .error (.fault (.privilegeViolation d.privilege m.processor.privilege)) (m.remember d)
      else
        match m.registerCell? framePointer with
        | none =>
          .error (.fault (.segmentViolation .register (UInt32.ofNat framePointer))) (m.remember d)
        | some cell =>
          let frame := m.memory.get cell
          if m.reaches .stack frame then
            .ok () (((m.remember d).withStack (frame + 1)
              (m.memory.set cell (m.memory.get frame))).goto (ip + 1))
          else .error (.fault (.segmentViolation .stack frame)) ((m.remember d).withSp frame) := by
  have operands : d.operands = [] := by
    have length := Instruction.length_of_operandsObey (Instruction.obeys_of_decode decodes.decoded)
    rw [opcode] at length
    exact List.length_eq_zero_iff.mp length
  by_cases low : m.processor.privilege < d.privilege.toUInt32
  · rw [if_pos low]
    exact Action.bind_of_error (decodes.prepare_of_lt settled low) _
  · have allows : m.Allows ip d := ⟨decodes, UInt32.not_lt.mp low⟩
    have prepared : prepare ip m = .ok ⟨.leave, ip, ip + 1, []⟩ (m.remember d) := by
      rw [allows.prepare settled, operands, opcode]
      rfl
    have performed : perform ⟨.leave, ip, ip + 1, []⟩ (m.remember d) = _ :=
      performLeave_eq (m := m.remember d) settled
    have cell : (m.remember d).registerCell? framePointer = m.registerCell? framePointer := rfl
    rw [if_neg low]
    refine (Action.bind_of_ok prepared _).trans ?_
    rw [cell] at performed
    cases found : m.registerCell? framePointer with
    | none =>
      simp only [found] at performed
      exact Action.bind_of_error performed _
    | some cell =>
      simp only [found] at performed
      by_cases reached : m.reaches .stack (m.memory.get cell) = true
      · rw [if_pos (by exact reached)] at performed
        simp only [if_pos reached]
        exact Action.bind_of_ok performed _
      · rw [if_neg (by exact reached)] at performed
        simp only [if_neg reached]
        exact Action.bind_of_error performed _

/-- `LEAVE` does not look at the stack pointer it finds. -/
theorem executeAt_withSp_of_leave (fetched : (fetchInstruction ip).outcome m = .ok d)
    (opcode : d.opcode = .leave) (sp : Word) :
    (executeAt ip).outcome (m.withSp sp) = (executeAt ip).outcome m ∧
      ∀ m', executeAt ip m = .ok () m' → executeAt ip (m.withSp sp) = .ok () m' := by
  obtain ⟨settled, decodes⟩ := decodes_of_fetched fetched
  have segments : (m.withSp sp).mapped.segments = m.mapped.segments :=
    segments_mapped_congr rfl rfl rfl
  have same : (m.withSp sp).mapped = m.mapped.withSp sp := by
    rw [mapped_eq (m.withSp sp), segments, mapped_eq m]
    rfl
  have eq := executeAt_of_leave settled decodes opcode
  have eqSp : executeAt ip (m.mapped.withSp sp) = _ :=
    executeAt_of_leave settled ⟨decodes.fetched, decodes.decoded⟩ opcode
  have cell : (m.mapped.withSp sp).registerCell? framePointer =
    m.mapped.registerCell? framePointer := rfl
  rw [cell] at eqSp
  rw [Action.outcome, Action.outcome, executeAt_mapped, executeAt_mapped m, same, eq, eqSp]
  by_cases low : m.mapped.processor.privilege < d.privilege.toUInt32
  · rw [if_pos low, if_pos (by exact low)]
    exact ⟨rfl, fun _ ends => absurd ends (by simp)⟩
  · rw [if_neg low, if_neg (by exact low)]
    cases m.mapped.registerCell? framePointer with
    | none => exact ⟨rfl, fun _ ends => absurd ends (by simp)⟩
    | some cell =>
      have reaches : (m.mapped.withSp sp).reaches .stack (m.mapped.memory.get cell) =
        m.mapped.reaches .stack (m.mapped.memory.get cell) := rfl
      have memory : (m.mapped.withSp sp).memory = m.mapped.memory := rfl
      simp only [memory, reaches]
      by_cases reached : m.mapped.reaches .stack (m.mapped.memory.get cell) = true
      · simp only [if_pos reached]
        exact ⟨trivial, fun _ ends => ends⟩
      · simp only [if_neg reached]
        exact ⟨trivial, fun _ ends => absurd ends (by simp)⟩

/-! ## What is left -/

/-- The stack pointer that `LEAVE` leaves behind when it ends with a fault.  If it is the pop that
failed, it has moved to the frame. -/
def leftSp (m : Machine) : Fault → Word
  | .segmentViolation .stack frame => frame
  | _ => m.processor.sp

theorem leftSp_eq_iff : m.leftSp f = m.processor.sp ↔
    ∀ frame, f = .segmentViolation .stack frame → frame = m.processor.sp := by
  unfold leftSp
  split
  next frame => simp
  next other => exact ⟨fun _ frame popped => absurd popped (other frame), fun _ => rfl⟩

/-- What a `LEAVE` that ends with a fault comes to. -/
structure LeaveFaulted (m : Machine) (f : Fault) (m' : Machine) : Prop where
  /-- Nothing has changed but the stack pointer. -/
  untouched : Untouched (m.withSp (m.leftSp f)) m'
  /-- Only the pop uses the stack, and it does so at the frame. -/
  frame : ∀ frame, f = .segmentViolation .stack frame →
    (readRegister framePointer).outcome m = .ok frame
  framePointer : (readRegister framePointer).outcome m' = (readRegister framePointer).outcome m
  /-- The privilege level is too low, or an access misses. -/
  cause : (∃ required current, f = .privilegeViolation required current) ∨
    ∃ kind offset, f = .segmentViolation kind offset

/-- The instruction is to be executed again. -/
theorem LeaveFaulted.resumeIp (h : m.LeaveFaulted f m') (ip : Word) :
    (f.exit ip).resumeIp = ip := by
  obtain ⟨_, _, rfl⟩ | ⟨_, _, rfl⟩ := h.cause <;> rfl

theorem LeaveFaulted.few (h : m.LeaveFaulted f m') (ip : Word) :
    (f.exit ip).extra.length + 2 ≤ Word.count := by
  obtain ⟨_, _, rfl⟩ | ⟨_, _, rfl⟩ := h.cause <;> simp [Fault.exit, Exit.ofInterrupt, Word.count]

/-- Where no memory has changed, registers read the same. -/
theorem readRegister_outcome_of_change (settled : m.Settled) (change : LocalChange m m')
    (memory : m'.memory = m.memory) {index : Nat} (small : index < registerCount) :
    (readRegister index).outcome m' = (readRegister index).outcome m := by
  have address := registerAddress_eq settled small
  have address' := registerAddress_eq (change.settled settled) small
  rw [change.registerCell?] at address'
  cases found : m.registerCell? index with
  | none =>
    rw [found] at address address'
    have reads : readRegister index m = _ := Action.bind_of_error address _
    have reads' : readRegister index m' = _ := Action.bind_of_error address' _
    rw [Action.outcome, Action.outcome, reads, reads']
  | some cell =>
    rw [found] at address address'
    have reads : readRegister index m = .ok (m.memory.get cell) m := Action.bind_of_ok address _
    have reads' : readRegister index m' = .ok (m'.memory.get cell) m' :=
      Action.bind_of_ok address' _
    rw [Action.outcome, Action.outcome, reads, reads', memory]

theorem leaveFaulted_of_executeAt (fetched : (fetchInstruction ip).outcome m = .ok d)
    (opcode : d.opcode = .leave) (faulted : executeAt ip m = .error (.fault f) m') :
    m.LeaveFaulted f m' := by
  obtain ⟨settled, decodes⟩ := decodes_of_fetched fetched
  have same : Untouched m m.mapped := by
    rw [mapped_eq]
    exact ⟨rfl, rfl, rfl, rfl, rfl⟩
  have reads : (readRegister framePointer).outcome m =
      (readRegister framePointer).outcome m.mapped := by
    rw [Action.outcome, readRegister_mapped m (by decide)]
    rfl
  -- In each of the three ways to fail, the machine has at most another stack pointer.
  have left (sp : Word) : Untouched (m.withSp sp) ((m.mapped.remember d).withSp sp) ∧
      (readRegister framePointer).outcome ((m.mapped.remember d).withSp sp) =
        (readRegister framePointer).outcome m := by
    refine ⟨(same.trans (.remember _ d)).withSp sp, ?_⟩
    rw [reads]
    exact readRegister_outcome_of_change settled
      ((LocalChange.remember _ d).trans (.withSp _ sp)) rfl (by decide)
  rw [executeAt_mapped, executeAt_of_leave settled decodes opcode] at faulted
  have stays : m.mapped.remember d = (m.mapped.remember d).withSp m.processor.sp := by
    rw [← processor_mapped m]
    rfl
  obtain ⟨untouched, register⟩ := left m.processor.sp
  rw [← stays] at untouched register
  split at faulted
  · cases faulted
    exact ⟨untouched, fun _ same => absurd same (by simp), register, .inl ⟨_, _, rfl⟩⟩
  · split at faulted
    next missing =>
      cases faulted
      exact ⟨untouched, fun _ same => absurd same (by simp), register, .inr ⟨_, _, rfl⟩⟩
    next cell found =>
      dsimp only at faulted
      split at faulted
      · cases faulted
      · cases faulted
        obtain ⟨untouched, register⟩ := left (m.mapped.memory.get cell)
        refine ⟨untouched, ?_, register, .inr ⟨_, _, rfl⟩⟩
        rintro frame same
        cases same
        rw [reads, Action.outcome, readRegister_of_cell settled (by decide) found]

/-! ## Delivery -/

/-- A `LEAVE` that ends with a fault is all or nothing but for the stack pointer, which moves to the
frame if the pop fails.  The interrupt of the host is delivered there, and the guest is saved with
it.  Wherever the stack pointer is, the instruction comes to the same when it is executed again. -/
theorem step_of_leave_fault (isRunning : m.isRunning = true) (quiet : m.timerFires = false)
    (fetched : (fetchInstruction m.processor.ip).outcome m.begun = .ok d)
    (opcode : d.opcode = .leave)
    (faulted : (executeAt m.processor.ip).outcome m.begun = .error (.fault f)) :
    m.begun.LeaveFaulted f m.atExit ∧
      (m.atExit.processor.sp = m.processor.sp ↔
        ∀ frame, f = .segmentViolation .stack frame → frame = m.processor.sp) ∧
      (∀ sp, (executeAt m.processor.ip).outcome (m.begun.withSp sp) = .error (.fault f)) ∧
      ∀ running m', step m = .ok running m' →
        (m.processor.inGuest = false →
          m.HandlerEntered (f.exit m.processor.ip).hostRecord m' ∧
            m'.processor.sp =
              m.leftSp f - UInt32.ofNat (1 + (f.exit m.processor.ip).extra.length)) ∧
        ∀ slot, m.processor.guest = some slot →
          (∀ j < 2 + (f.exit m.processor.ip).extra.length,
            ¬m.InRow slot (m'.processor.sp + UInt32.ofNat j)) →
          m'.rowContext slot = { m.processor.toContext with sp := m.leftSp f } := by
  have exits : m.exit? = some (f.exit m.processor.ip) := by
    simp [exit?, quiet, faulted]
  have executed : executeAt m.processor.ip m.begun = .error (.fault f) m.atExit := by
    rw [atExit, if_neg (by simp [quiet])]
    exact Action.eq_error_of_outcome faulted
  have left := leaveFaulted_of_executeAt fetched opcode executed
  have begins : m.begun.leftSp f = m.leftSp f := by
    unfold leftSp
    rw [processor_begun]
  have sp : m.atExit.processor.sp = m.leftSp f := by
    rw [left.untouched.processor, ← begins]
    rfl
  refine ⟨left, ?_, fun sp' => ?_, fun running m' stepped => ⟨fun host => ?_, ?_⟩⟩
  · rw [sp]
    exact leftSp_eq_iff
  · rw [(executeAt_withSp_of_leave fetched opcode sp').1, faulted]
  · have entered := handlerEntered_of_step isRunning host exits (left.few _) stepped
    have lower := entered.sp
    rw [sp] at lower
    exact ⟨entered, lower⟩
  · intro slot guest apart
    have guest' := (guest_atExit exits).trans guest
    have leaves := leaveFor_of_step isRunning guest exits stepped
    rw [rowContext_of_leaveFor guest' (left.few _) leaves fun j small =>
      mt (inRow_congr (guestTable_atExit exits) slot _).mp (apart j small), left.resumeIp,
      left.untouched.processor, ← begins]
    show ({ m.begun.processor.toContext with sp := _, ip := _ } : Context) = _
    rw [processor_begun]
    rfl

/-- A host that is about to drop a frame that lies above its stack. -/
def strayHost : Machine :=
  { pushingHost with
    processor := { pushingHost.processor with sp := 0x280 }
    memory := (Memory.empty.place 0 [Instruction.encode ⟨.leave, 0, []⟩]).place 0x31E [0x300] }

theorem step_of_leave_fault_strayHost :
    strayHost.isRunning = true ∧ strayHost.timerFires = false ∧
      (fetchInstruction 0).outcome strayHost.begun = .ok ⟨.leave, 0, []⟩ ∧
      (executeAt 0).outcome strayHost.begun =
        .error (.fault (.segmentViolation .stack 0x300)) ∧
      strayHost.begun.LeaveFaulted (.segmentViolation .stack 0x300) strayHost.atExit ∧
      ∃ m', step strayHost = .ok true m' ∧
        strayHost.HandlerEntered ⟨1, 0, [0x300, 3]⟩ m' ∧ m'.processor.sp = 0x2FD := by
  have fetched : (fetchInstruction 0).outcome strayHost.begun = .ok ⟨.leave, 0, []⟩ := by
    decide +kernel
  have faulted : (executeAt 0).outcome strayHost.begun =
      .error (.fault (.segmentViolation .stack 0x300)) := by decide +kernel
  have stepped : step.outcome strayHost = .ok true := by decide +kernel
  have ran := Action.eq_ok_of_outcome stepped
  obtain ⟨left, -, -, delivered⟩ :=
    step_of_leave_fault (m := strayHost) (by decide) (by decide) fetched rfl faulted
  obtain ⟨entered, sp⟩ := (delivered true _ ran).1 rfl
  exact ⟨by decide, by decide, fetched, faulted, left, _, ran, entered, sp⟩

/-- A guest that is about to drop a frame that lies above its stack. -/
def strayGuest : Machine :=
  { sampleGuest with
    memory :=
      (sampleGuest.memory.place 0 [Instruction.encode ⟨.leave, 0, []⟩]).place 0x31E [0x300] }

/-- The stack pointer has moved.  In the host the frame of the interrupt lies over words of the
program, and the guest is saved with the stack pointer moved. -/
theorem stray_sp_moves :
    ((executeAt 0).outcome strayHost = .error (.fault (.segmentViolation .stack 0x300)) ∧
        strayHost.processor.sp = 0x280 ∧ ((executeAt 0).after strayHost).processor.sp = 0x300 ∧
        (step.after strayHost).processor.sp = 0x2FD ∧
        (step.after strayHost).top 3 = [0, 3, 0x300]) ∧
      strayGuest.processor.sp = 0x280 ∧ step.outcome strayGuest = .ok true ∧
      ((step.after strayGuest).rowContext 1).sp = 0x300 := by
  decide +kernel

end WordMachine.Machine
