import WordMachine.Proofs.Mapping

/-!
# Steps of the stack instructions

An instruction that sets up or drops a frame moves the stack pointer, writes at
most two cells, and goes on somewhere.  `Completes` says of a step that it comes
to such a change, and that the machine still finds its cells where it found them
before.  There is one lemma for each of the opcodes: `Performs.push`, `.call`,
`.retn`, `.enter`, `.leave` and `.getArgument`.  Each says when the step succeeds
and what it leaves.
-/

namespace WordMachine.Machine

variable {m m' : Machine} {i : ResolvedInstruction} {a cell : Word}

/-! ## The stack and the registers of a settled machine -/

/-- The machine with another stack pointer and another memory. -/
def withStack (m : Machine) (sp : Word) (memory : Memory) : Machine :=
  { m with memory := memory, processor := { m.processor with sp := sp } }

theorem push_of_reaches (settled : m.Settled)
    (reached : m.reaches .stack (m.processor.sp - 1) = true) (v : Word) :
    push v m = .ok () (m.withStack (m.processor.sp - 1) (m.memory.set (m.processor.sp - 1) v)) := by
  rw [push_eq settled v, if_pos reached]
  rfl

theorem pop_of_reaches (settled : m.Settled) (reached : m.reaches .stack m.processor.sp = true) :
    pop m = .ok (m.memory.get m.processor.sp) (m.withStack (m.processor.sp + 1) m.memory) := by
  rw [pop_eq settled, if_pos reached]
  rfl

theorem registerAddress_of_cell (settled : m.Settled) {index : Nat} (small : index < registerCount)
    (found : m.registerCell? index = some a) : registerAddress index m = .ok a m := by
  rw [registerAddress_eq settled small, found]

theorem readRegister_of_cell (settled : m.Settled) {index : Nat} (small : index < registerCount)
    (found : m.registerCell? index = some a) : readRegister index m = .ok (m.memory.get a) m :=
  Action.bind_of_ok (registerAddress_of_cell settled small found) _

theorem writeRegister_of_cell (settled : m.Settled) {index : Nat} (small : index < registerCount)
    (found : m.registerCell? index = some a) (v : Word) :
    writeRegister index v m = .ok () (m.setCell a v) :=
  Action.bind_of_ok (registerAddress_of_cell settled small found) _

/-- Dropping a frame moves the stack pointer first.  So it has moved if the pop fails. -/
theorem performLeave_eq (settled : m.Settled) :
    performLeave m =
      match m.registerCell? framePointer with
      | none => .error (.fault (.segmentViolation .register (UInt32.ofNat framePointer))) m
      | some cell =>
        let frame := m.memory.get cell
        if m.reaches .stack frame then
          .ok .next (m.withStack (frame + 1) (m.memory.set cell (m.memory.get frame)))
        else .error (.fault (.segmentViolation .stack frame)) (m.withSp frame) := by
  cases found : m.registerCell? framePointer with
  | none =>
    have missing := registerAddress_eq settled (show framePointer < registerCount by decide)
    rw [found] at missing
    exact Action.bind_of_error (Action.bind_of_error missing _) _
  | some cell =>
    refine (Action.bind_of_ok (readRegister_of_cell settled (by decide) found) _).trans ?_
    let dropped := m.withSp (m.memory.get cell)
    have pops := pop_eq (m := dropped) settled
    show (pop >>= _) dropped = _
    by_cases reached : m.reaches .stack (m.memory.get cell) = true
    · let popped := dropped.withSp (m.memory.get cell + 1)
      have written : writeRegister framePointer (m.memory.get (m.memory.get cell)) popped =
          .ok () (popped.setCell cell (m.memory.get (m.memory.get cell))) :=
        writeRegister_of_cell (m := popped) settled (by decide) found _
      rw [if_pos (by exact reached)] at pops
      simp only [if_pos reached]
      exact (Action.bind_of_ok pops _).trans (Action.bind_of_ok written _)
    · rw [if_neg (by exact reached)] at pops
      simp only [if_neg reached]
      exact Action.bind_of_error pops _

/-! ## Steps that complete an instruction -/

/-- Whether the next step performs an instruction. -/
def Performs (m : Machine) (i : ResolvedInstruction) : Prop :=
  m.isRunning = true ∧ m.timerFires = false ∧ (prepare m.processor.ip).outcome m.begun = .ok i

instance (m : Machine) (i : ResolvedInstruction) : Decidable (m.Performs i) :=
  inferInstanceAs (Decidable (_ ∧ _ ∧ _))

/-- What a step comes to that completes its instruction, as far as the stack and the memory go. -/
structure Completes (m : Machine) (ip sp : Word) (memory : Memory) : Prop where
  stepped : step m = .ok true (step.after m)
  isRunning : (step.after m).isRunning = true
  ip : (step.after m).processor.ip = ip
  sp : (step.after m).processor.sp = sp
  memory : (step.after m).memory = memory
  settled : (step.after m).Settled
  /-- The mappings are those that the step found. -/
  mapping : ∀ space, SameMapping space m.mapped (step.after m)

/-- What holds of the machine on which the next step performs its instruction. -/
structure Readies (m : Machine) (i : ResolvedInstruction) (m₀ : Machine) : Prop where
  prepare : prepare m.processor.ip m.begun = .ok i m₀
  prepared : m₀.Prepared i
  settled : m₀.Settled
  status : m₀.status = m.status
  sp : m₀.processor.sp = m.processor.sp
  memory : m₀.memory = m.memory
  mapping : ∀ space, SameMapping space m.mapped m₀

theorem Performs.readies (performs : m.Performs i) : ∃ m₀, m.Readies i m₀ := by
  obtain ⟨-, -, outcome⟩ := performs
  have prepared := Action.eq_ok_of_outcome outcome
  generalize (prepare m.processor.ip).after m.begun = m₀ at prepared
  have settled : m.ready.Settled := by
    rcases settled_mapped_or_prepare m.begun m.processor.ip with settled | ⟨e, failed⟩
    · exact settled
    · rw [failed] at prepared
      cases prepared
  have same : prepare m.processor.ip m.ready = prepare m.processor.ip m.begun :=
    (prepare_mapped m.begun m.processor.ip).symm
  obtain ⟨⟨d, remembers⟩, valid⟩ := (prepare_ends settled _).ok (same.trans prepared)
  have change : LocalChange m.ready m₀ := by
    rw [remembers]
    exact .remember _ d
  refine ⟨m₀, prepared, valid, change.settled settled, ?_, ?_, ?_, fun space => ?_⟩
  · rw [change.status, ready, mapped_eq]
    rfl
  · rw [remembers]
    show m.ready.processor.sp = m.processor.sp
    rw [processor_ready, processor_begun]
  · rw [remembers]
    exact memory_ready m
  · exact (sameMapping_ready m space).trans (.of_localChange change space)

theorem Performs.completes {m₀ : Machine} {ip sp : Word} {memory : Memory}
    (performs : m.Performs i) (readies : m.Readies i m₀)
    (finishes : carryOut i m₀ = .ok () ((m₀.withStack sp memory).goto ip)) :
    m.Completes ip sp memory := by
  obtain ⟨isRunning, quiet, -⟩ := performs
  have executed := (executeAt_of_prepare readies.prepare).trans finishes
  have running : ((m₀.withStack sp memory).goto ip).isRunning = true := by
    show decide (m₀.status = .running) = true
    rw [readies.status]
    exact isRunning
  have stepped := step_of_ok isRunning quiet executed
  rw [running] at stepped
  have after := Action.after_of_ok stepped
  have mapping (space : AddressSpace) :
      SameMapping space m.mapped ((m₀.withStack sp memory).goto ip) := by
    obtain ⟨segmented, segments, selector⟩ := readies.mapping space
    refine ⟨segmented, segments, ?_⟩
    rw [← selector]
    cases space <;> rfl
  constructor <;> rw [after]
  · exact stepped
  · exact running
  · rfl
  · rfl
  · rfl
  · exact readies.settled
  · exact mapping

/-- Performing without a result and going on with the next instruction. -/
theorem Performs.completes_next {m₀ : Machine} {sp : Word} {memory : Memory}
    (performs : m.Performs i) (readies : m.Readies i m₀)
    (performed : perform i m₀ = .ok .next (m₀.withStack sp memory)) :
    m.Completes i.nextIp sp memory :=
  performs.completes readies (Action.bind_of_ok performed _)

/-- Performing a jump. -/
theorem Performs.completes_jump {m₀ : Machine} {ip sp : Word} {memory : Memory}
    (performs : m.Performs i) (readies : m.Readies i m₀)
    (performed : perform i m₀ = .ok (.jump ip) (m₀.withStack sp memory)) :
    m.Completes ip sp memory :=
  performs.completes readies (Action.bind_of_ok performed _)

namespace Completes

variable {ip sp : Word} {memory : Memory}

theorem mapping_mapped (h : m.Completes ip sp memory) (space : AddressSpace) :
    SameMapping space m.mapped (step.after m).mapped := by
  rw [mapped_of_settled h.settled]
  exact h.mapping space

theorem reaches (h : m.Completes ip sp memory) (offset : Word) :
    (step.after m).mapped.reaches .stack offset = m.mapped.reaches .stack offset :=
  (h.mapping_mapped .stack).reaches offset

theorem registerCell? (h : m.Completes ip sp memory) (index : Nat) :
    (step.after m).mapped.registerCell? index = m.mapped.registerCell? index :=
  (h.mapping_mapped .register).registerCell? index

theorem readRegister (h : m.Completes ip sp memory) {index : Nat} (small : index < registerCount)
    (found : m.mapped.registerCell? index = some cell) :
    (readRegister index).outcome (step.after m) = .ok (memory.get cell) := by
  have found' : (step.after m).registerCell? index = some cell := by
    rw [(h.mapping .register).registerCell?]
    exact found
  rw [Action.outcome, readRegister_of_cell h.settled small found', h.memory]

end Completes

/-! ## The instructions -/

theorem Readies.reaches {m₀ : Machine} (readies : m.Readies i m₀)
    (reached : m.mapped.reaches .stack a = true) : m₀.reaches .stack a = true := by
  rw [(readies.mapping .stack).reaches]
  exact reached

theorem Readies.registerCell? {m₀ : Machine} {index : Nat} (readies : m.Readies i m₀)
    (found : m.mapped.registerCell? index = some cell) : m₀.registerCell? index = some cell := by
  rw [(readies.mapping .register).registerCell?]
  exact found

theorem Performs.push (performs : m.Performs i) (opcode : i.opcode = .push)
    (reached : m.mapped.reaches .stack (m.processor.sp - 1) = true) :
    m.Completes i.nextIp (m.processor.sp - 1) (m.memory.set (m.processor.sp - 1) i.first) := by
  obtain ⟨m₀, readies⟩ := performs.readies
  have reached := readies.reaches reached
  refine performs.completes_next readies ?_
  rw [← readies.sp] at reached ⊢
  rw [← readies.memory]
  unfold perform
  rw [opcode]
  exact Action.bind_of_ok (push_of_reaches readies.settled reached i.first) _

theorem Performs.call (performs : m.Performs i) (opcode : i.opcode = .call)
    (reached : m.mapped.reaches .stack (m.processor.sp - 1) = true) :
    m.Completes i.first (m.processor.sp - 1) (m.memory.set (m.processor.sp - 1) i.nextIp) := by
  obtain ⟨m₀, readies⟩ := performs.readies
  have reached := readies.reaches reached
  refine performs.completes_jump readies ?_
  rw [← readies.sp] at reached ⊢
  rw [← readies.memory]
  unfold perform
  rw [opcode]
  exact Action.bind_of_ok (push_of_reaches readies.settled reached i.nextIp) _

theorem Performs.retn (performs : m.Performs i) (opcode : i.opcode = .retn)
    (reached : m.mapped.reaches .stack m.processor.sp = true) :
    m.Completes (m.memory.get m.processor.sp) (m.processor.sp + 1 + i.first) m.memory := by
  obtain ⟨m₀, readies⟩ := performs.readies
  have reached := readies.reaches reached
  refine performs.completes_jump readies ?_
  rw [← readies.sp] at reached ⊢
  rw [← readies.memory]
  unfold perform
  rw [opcode]
  exact Action.bind_of_ok (pop_of_reaches readies.settled reached) _

/-- `ENTER` saves the frame pointer and lets it point to where it was saved. -/
theorem Performs.enter (performs : m.Performs i) (opcode : i.opcode = .enter)
    (found : m.mapped.registerCell? framePointer = some cell)
    (reached : m.mapped.reaches .stack (m.processor.sp - 1) = true) :
    m.Completes i.nextIp (m.processor.sp - 1 - i.first)
      ((m.memory.set (m.processor.sp - 1) (m.memory.get cell)).set cell (m.processor.sp - 1)) := by
  obtain ⟨m₀, readies⟩ := performs.readies
  have reached := readies.reaches reached
  have found := readies.registerCell? found
  refine performs.completes_next readies ?_
  rw [← readies.sp] at reached ⊢
  rw [← readies.memory]
  let saved := m₀.withStack (m₀.processor.sp - 1)
    (m₀.memory.set (m₀.processor.sp - 1) (m₀.memory.get cell))
  have pushed : Machine.push (m₀.memory.get cell) m₀ = .ok () saved :=
    push_of_reaches readies.settled reached _
  have written : writeRegister framePointer saved.processor.sp saved =
      .ok () (saved.setCell cell saved.processor.sp) :=
    writeRegister_of_cell (m := saved) readies.settled (by decide) found _
  unfold perform
  rw [opcode]
  refine (Action.bind_of_ok (readRegister_of_cell readies.settled (by decide) found) _).trans ?_
  refine (Action.bind_of_ok pushed _).trans ?_
  exact Action.bind_of_ok written _

/-- `LEAVE` drops everything below the frame and restores the frame pointer. -/
theorem Performs.leave (performs : m.Performs i) (opcode : i.opcode = .leave)
    (found : m.mapped.registerCell? framePointer = some cell)
    (reached : m.mapped.reaches .stack (m.memory.get cell) = true) :
    m.Completes i.nextIp (m.memory.get cell + 1)
      (m.memory.set cell (m.memory.get (m.memory.get cell))) := by
  obtain ⟨m₀, readies⟩ := performs.readies
  have reached := readies.reaches reached
  have found := readies.registerCell? found
  refine performs.completes_next readies ?_
  rw [← readies.memory] at reached ⊢
  have performed := performLeave_eq readies.settled
  simp only [found, if_pos reached] at performed
  unfold perform
  rw [opcode]
  exact performed

/-- The cell of a place for a result, if the place is one. -/
def placeCell? (m : Machine) : WriteTarget → Option Word
  | .register index => m.registerCell? index
  | .cell a => some a
  | .control _ => none

/-- Where there is a cell for one register, there is one for each. -/
theorem isSome_registerCell? {index : Nat} (found : m.registerCell? index = some a)
    (other : Nat) : (m.registerCell? other).isSome = true := by
  unfold registerCell? at found ⊢
  split at found
  next segmented =>
    obtain ⟨s, found, -⟩ := Option.map_eq_some_iff.mp found
    rw [if_pos segmented, found]
    rfl
  next flat =>
    rw [if_neg flat]
    rfl

/-- `GETARGUMENT` was only prepared if its result has a place. -/
theorem Prepared.exists_place (prepared : m.Prepared i) (opcode : i.opcode = .getArgument)
    (settled : m.Settled) {index : Nat} (found : m.registerCell? index = some cell) :
    ∃ place a, i.target? = some place ∧ m.placeCell? place = some a ∧
      ∀ v, writeBack v place m = .ok () (m.setCell a v) := by
  have hasResult : i.opcode.hasResult = true := by
    rw [opcode]
    rfl
  obtain ⟨place, target⟩ := Option.isSome_iff_exists.mp (prepared.hasTarget hasResult)
  have valid := prepared.canReceive place target
  cases place with
  | register other =>
    obtain ⟨a, there⟩ := Option.isSome_iff_exists.mp (isSome_registerCell? found other)
    exact ⟨_, a, target, there, writeRegister_of_cell settled valid there⟩
  | cell a => exact ⟨_, a, target, rfl, fun v => rfl⟩
  | control r =>
    have move := prepared.eq_mov r target
    rw [opcode] at move
    cases move

theorem Readies.placeCell? {m₀ : Machine} (readies : m.Readies i m₀) (place : WriteTarget) :
    m₀.placeCell? place = m.mapped.placeCell? place := by
  cases place with
  | register index => exact (readies.mapping .register).registerCell? index
  | cell a => rfl
  | control r => rfl

/-- `GETARGUMENT` reads a word above the frame pointer into its first operand. -/
theorem Performs.getArgument (performs : m.Performs i) (opcode : i.opcode = .getArgument)
    (found : m.mapped.registerCell? framePointer = some cell)
    (reached : m.mapped.reaches .stack (m.memory.get cell + 2 + i.second) = true) :
    ∃ place a, i.target? = some place ∧ m.mapped.placeCell? place = some a ∧
      m.Completes i.nextIp m.processor.sp
        (m.memory.set a (m.memory.get (m.memory.get cell + 2 + i.second))) := by
  obtain ⟨m₀, readies⟩ := performs.readies
  have reached := readies.reaches reached
  have found := readies.registerCell? found
  obtain ⟨place, a, target, there, writes⟩ :=
    readies.prepared.exists_place opcode readies.settled found
  refine ⟨place, a, target, (readies.placeCell? place).symm.trans there,
    performs.completes readies ?_⟩
  rw [← readies.memory] at reached ⊢
  rw [← readies.sp]
  let value := m₀.memory.get (m₀.memory.get cell + 2 + i.second)
  have translated := translate_eq readies.settled .stack (m₀.memory.get cell + 2 + i.second)
  rw [if_pos reached] at translated
  have performed : perform i m₀ = .ok (.value value) m₀ := by
    unfold perform
    rw [opcode]
    refine (Action.bind_of_ok (readRegister_of_cell readies.settled (by decide) found) _).trans ?_
    exact Action.bind_of_ok translated _
  have written : writeResult i (.value value) m₀ = .ok () (m₀.setCell a value) := by
    unfold writeResult
    simp only [Outcome.value, target]
    exact writes value
  refine (Action.bind_of_ok performed _).trans ?_
  exact Action.bind_of_ok written _

end WordMachine.Machine
