import WordMachine.Machine.Translation

/-!
# Operands

Before an instruction is executed, each of its operands is resolved to a value
and to the place where a result would go.  Extra words are fetched through the
code segment, in the order of the operands.  A cursor says where the next one
is.  It moves with each word that is fetched, and comes to the next instruction
when all operands are resolved.  The address of a memory operand is its extra
word plus the base register.  With two dereferences, the cell there
holds the address of the cell that counts, in the same segment.

A guest may not name a control register.  It is left before anything happens,
to be resumed at the same instruction.
-/

namespace WordMachine

/-- Where a result goes. -/
inductive WriteTarget where
  /-- A general register. -/
  | register (index : Nat)
  /-- A cell. -/
  | cell (address : Word)
  /-- A control register. -/
  | control (r : ControlRegister)
deriving DecidableEq, Repr

/-- A resolved operand. -/
structure ResolvedOperand where
  /-- Its value. -/
  value : Word
  /-- The place for a result, if it can receive one. -/
  target : Option WriteTarget
deriving DecidableEq, Repr

/-- The address space of a memory operand. -/
def OperandKind.space : OperandKind → AddressSpace
  | .singleDs | .doubleDs => .data
  | _ => .extraData

namespace Machine

/-- Fetches a word of an instruction. -/
def fetch (offset : Word) : Action Exception Word := do
  readCell (← translate .code offset)

/-- The value of the base register of a memory operand, zero if it has none. -/
def baseValue (d : OperandDescriptor) : Action Exception Word :=
  match d.base? with
  | some index => readRegister index
  | none => pure 0

/-- Fetches the extra word at the cursor.  The cursor moves past it. -/
def fetchExtra (cursor : Word) : Action Exception (Word × Word) := do
  let word ← fetch cursor
  return (word, cursor + 1)

/-- The address of a memory operand with an extra word. -/
def operandAddress (d : OperandDescriptor) (literal : Word) : Action Exception Word := do
  let base ← baseValue d
  let address ← translate d.kind.space (literal + base)
  if d.kind.isDouble then
    translate d.kind.space (← readCell address)
  else return address

/-- Resolves a control register, named in an operand of the instruction at `ip`. -/
def resolveControl (ip : Word) (position : Nat) (register : Fin 32) :
    Action Exception ResolvedOperand :=
  match ControlRegister.ofIndex? register with
  | none => Action.fault (.invalidInstruction (.unknownControlRegister register))
  | some r => do
    let p ← processorState
    if p.inGuest then
      let reason := if position = 0 then .controlRegisterWrite else .controlRegisterRead
      Action.fault (.guestTrap reason ip [UInt32.ofNat r.index])
    else return ⟨p.control r, some (.control r)⟩

/-- Resolves a memory operand.  Its extra word is at the cursor. -/
def resolveMemory (cursor : Word) (d : OperandDescriptor) :
    Action Exception (ResolvedOperand × Word) := do
  let (literal, cursor) ← fetchExtra cursor
  let address ← operandAddress d literal
  return (⟨← readCell address, some (.cell address)⟩, cursor)

/-- Resolves one operand.  Its extra word, if it has one, is at the cursor. -/
def resolve (ip : Word) (position : Nat) (cursor : Word) (d : OperandDescriptor) :
    Action Exception (ResolvedOperand × Word) :=
  match d.kind with
  | .immediate => do
    let (literal, cursor) ← fetchExtra cursor
    return (⟨literal, none⟩, cursor)
  | .register => do
    return (⟨← readRegister d.register, some (.register d.register)⟩, cursor)
  | .control => do return (← resolveControl ip position d.register, cursor)
  | _ => resolveMemory cursor d

/-- Resolves operands from a position on, with the cursor at their extra words. -/
def resolveAll (ip : Word) :
    Nat → Word → List OperandDescriptor → Action Exception (List ResolvedOperand × Word)
  | _, cursor, [] => pure ([], cursor)
  | position, cursor, d :: ds => do
      let (operand, cursor) ← resolve ip position cursor d
      let (operands, cursor) ← resolveAll ip (position + 1) cursor ds
      return (operand :: operands, cursor)

/-- Writes a result to its place. -/
def writeBack (value : Word) : WriteTarget → Action Exception Unit
  | .register index => writeRegister index value
  | .cell address => writeCell address value
  | .control r => modify (·.setControl r value)

end Machine

end WordMachine
