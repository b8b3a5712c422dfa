import WordMachine.Instruction.Arithmetic
import WordMachine.Instruction.Condition
import WordMachine.Machine.Interrupt
import WordMachine.Machine.Operand

/-!
# Executing an instruction

`perform` says what each opcode does with its resolved operands.  It answers
with an *outcome*: the value for the first operand, if there is one, and where
execution goes on.  `prepare` fetches and decodes the instruction at an offset,
checks its privilege level and resolves its operands.  `executeAt` prepares it,
performs it, and carries out the outcome.

In a guest, what concerns the whole machine is not performed.  It traps to the
host, which may do it instead.  A trap for `HALT` or `PRINT` resumes after the
instruction, and one for `VMRESUME`, `CLI` or `STI` at it.
-/

namespace WordMachine

/-- An instruction with its operands resolved. -/
structure ResolvedInstruction where
  /-- The operation. -/
  opcode : Opcode
  /-- The offset of the instruction. -/
  ip : Word
  /-- The offset of the next instruction. -/
  nextIp : Word
  /-- The resolved operands. -/
  operands : List ResolvedOperand
deriving DecidableEq, Repr

namespace ResolvedInstruction

/-- The value of the first operand. -/
def first (i : ResolvedInstruction) : Word := i.operands[0]?.elim 0 (·.value)

/-- The value of the second operand. -/
def second (i : ResolvedInstruction) : Word := i.operands[1]?.elim 0 (·.value)

/-- The place for a result, if there is one. -/
def target? (i : ResolvedInstruction) : Option WriteTarget := i.operands[0]?.bind (·.target)

end ResolvedInstruction

/-- Where execution goes on. -/
inductive Control where
  /-- At the next instruction. -/
  | next
  /-- At an offset. -/
  | jump (target : Word)
  /-- Where the processor now stands. -/
  | redirected
  /-- Nowhere: the machine halts. -/
  | halt
deriving DecidableEq, Repr

/-- What performing an instruction comes to. -/
structure Outcome where
  /-- The value for the first operand, if there is one. -/
  result : Option Word := none
  /-- Where execution goes on. -/
  control : Control := .next
deriving DecidableEq, Repr

namespace Outcome

/-- Going on with the next instruction. -/
def next : Outcome := {}

/-- A value, and going on with the next instruction. -/
def value (w : Word) : Outcome := { result := some w }

/-- Going on at an offset. -/
def jump (target : Word) : Outcome := { control := .jump target }

end Outcome

namespace Machine

/-! ## What the opcodes do -/

/-- In a guest, traps to the host.  In the host, does nothing. -/
def hostOnly (reason : TrapReason) (resumeIp : Word) (extra : List Word) :
    Action Exception Unit := do
  if (← processorState).inGuest then Action.fault (.guestTrap reason resumeIp extra)

/-- Performs an arithmetic operation. -/
def performArithmetic (i : ResolvedInstruction) : Action Exception Outcome :=
  match ArithmeticOp.ofOpcode? i.opcode with
  | none => throw (.fatal (.noHandler i.opcode))
  | some a =>
    match a.evaluate? i.first i.second with
    | none => Action.fault .divideByZero
    | some value => return .value value

/-- Performs a jump. -/
def performBranch (i : ResolvedInstruction) : Action Exception Outcome :=
  match Condition.ofOpcode? i.opcode with
  | none => throw (.fatal (.noHandler i.opcode))
  | some c => do
    if c.holds (← processorState).flags then return .jump i.first else return .next

/-- Saves the frame pointer and sets up a frame with room for local words. -/
def performEnter (i : ResolvedInstruction) : Action Exception Outcome := do
  let saved ← readRegister framePointer
  push saved
  let sp := (← processorState).sp
  writeRegister framePointer sp
  modifyProcessor fun p => { p with sp := sp - i.first }
  return .next

/-- Drops the current frame and restores the frame pointer. -/
def performLeave : Action Exception Outcome := do
  let frame ← readRegister framePointer
  modifyProcessor fun p => { p with sp := frame }
  let saved ← pop
  writeRegister framePointer saved
  return .next

/-- Reads an argument.  It lies above the saved frame pointer and the return address. -/
def performGetArgument (i : ResolvedInstruction) : Action Exception Outcome := do
  let frame ← readRegister framePointer
  let address ← translate .stack (frame + 2 + i.second)
  return .value (← readCell address)

/-- Saves the host and enters a guest. -/
def performResume (i : ResolvedInstruction) : Action Exception Outcome := do
  let slot := i.first
  hostOnly .vmResume i.ip [slot]
  let rows ← guestRows
  if slot = hostSlot ∨ rows.length ≤ slot.toNat then Action.fault (.invalidGuestSlot slot)
  modifyProcessor fun p => { p with ip := i.nextIp }
  saveHostSlot
  enterGuest slot
  return { control := .redirected }

/-- Switches the delivery of interrupts on or off. -/
def performSetInterrupts (i : ResolvedInstruction) (on : Bool) : Action Exception Outcome := do
  hostOnly .controlRegisterWrite i.ip [UInt32.ofNat ControlRegister.interrupt.index]
  modifyProcessor (·.setInterruptsEnabled on)
  return .next

/-- Performs an instruction. -/
def perform (i : ResolvedInstruction) : Action Exception Outcome :=
  match i.opcode with
  | .add | .sub | .mul | .div | .mod | .or | .xor | .and | .not | .shl | .shr =>
    performArithmetic i
  | .mov => return .value i.second
  | .nop => return .next
  | .halt => do
    hostOnly .halt i.nextIp []
    return { control := .halt }
  | .print => do
    hostOnly .hardwareAccess i.nextIp [i.first]
    modify (·.emit i.first)
    return .next
  | .cmp => do
    modifyProcessor fun p => { p with flags := .comparison i.first i.second }
    return .next
  | .jmp | .jz | .jnz | .jgt | .jge => performBranch i
  | .call => do
    push i.nextIp
    return .jump i.first
  | .ret | .reti => do return .jump (← pop)
  | .retn => do
    let target ← pop
    modifyProcessor fun p => { p with sp := p.sp + i.first }
    return .jump target
  | .push => do
    push i.first
    return .next
  | .pop => do return .value (← pop)
  | .enter => performEnter i
  | .leave => performLeave
  | .getArgument => performGetArgument i
  | .int => Action.fault (.softwareInterrupt i.first i.nextIp)
  | .vmResume => performResume i
  | .cli => performSetInterrupts i false
  | .sti => performSetInterrupts i true

theorem perform_of_resume {i : ResolvedInstruction} (opcode : i.opcode = .vmResume) :
    perform i = performResume i := by
  simp [perform, opcode]

/-! ## Carrying out -/

/-- Writes the result of an instruction, if it has one, to its first operand. -/
def writeResult (i : ResolvedInstruction) (outcome : Outcome) : Action Exception Unit :=
  match outcome.result with
  | none => pure ()
  | some value =>
    match i.target? with
    | none => throw (.fatal (.missingWriteTarget i.opcode))
    | some target => writeBack value target

/-- Goes on as an outcome says. -/
def follow (i : ResolvedInstruction) (control : Control) : Action Exception Unit :=
  match control with
  | .next => modifyProcessor fun p => { p with ip := i.nextIp }
  | .jump target => modifyProcessor fun p => { p with ip := target }
  | .redirected => pure ()
  | .halt => do
    modifyProcessor fun p => { p with ip := i.nextIp }
    modify fun m => { m with status := .halted }

/-- Fetches and decodes the instruction at an offset. -/
def fetchInstruction (ip : Word) : Action Exception Instruction := do
  match Instruction.decode (← fetch ip) with
  | .error e => Action.fault (.invalidInstruction e)
  | .ok i =>
    modify fun m => { m with lastInstruction := some i }
    return i

/-- Checks that the current privilege level is high enough for an instruction. -/
def checkPrivilege (i : Instruction) : Action Exception Unit := do
  let current := (← processorState).privilege
  if current < i.privilege.toUInt32 then Action.fault (.privilegeViolation i.privilege current)

/-- Fetches the instruction at an offset, checks its privilege level and resolves its operands.  The
next instruction is where the cursor comes to. -/
def prepare (ip : Word) : Action Exception ResolvedInstruction := do
  let i ← fetchInstruction ip
  checkPrivilege i
  let (operands, cursor) ← resolveAll ip 0 (ip + 1) i.operands
  return ⟨i.opcode, ip, cursor, operands⟩

/-- Executes the instruction at an offset. -/
def executeAt (ip : Word) : Action Exception Unit := do
  let i ← prepare ip
  let outcome ← perform i
  writeResult i outcome
  follow i outcome.control

end Machine

end WordMachine
