import WordMachine.Descriptor.Segment
import WordMachine.Fault.Trap
import WordMachine.Instruction.Basic
import WordMachine.Memory.Basic

/-!
# Faults and fatal errors

Two kinds of failure are kept apart.  A *fault* is an event the running program
can see.  It ends the instruction and is delivered as an interrupt or a trap.
A *fatal error* means the tables or the stack that delivery needs are
unusable.  It stops the machine.

An *exception* is either of them.  It is what ends an instruction early.
-/

namespace WordMachine

/-! ## Faults -/

/-- An event the running program can see. -/
inductive Fault where
  /-- An offset the selected segment does not cover. -/
  | segmentViolation (kind : SegmentKind) (offset : Word)
  /-- A word that is no instruction. -/
  | invalidInstruction (error : DecodeError)
  /-- A guest that cannot be entered. -/
  | invalidGuestSlot (slot : Word)
  /-- A division by zero. -/
  | divideByZero
  /-- An instruction above the current privilege level. -/
  | privilegeViolation (required : UInt8) (current : Word)
  /-- An `INT` instruction and the address to return to. -/
  | softwareInterrupt (number returnIp : Word)
  /-- Something only the host may do, with the address to resume the guest at and words for the
  stack of the host. -/
  | guestTrap (reason : TrapReason) (resumeIp : Word) (extra : List Word)
deriving DecidableEq, Repr

/-- The fault as text. -/
def Fault.message : Fault → String
  | segmentViolation kind offset =>
    s!"segment violation in {kind.name} segment at offset {Text.prefixedHex8 offset.toNat}"
  | invalidInstruction error => s!"invalid instruction: {error.message}"
  | invalidGuestSlot slot => s!"VMRESUME into invalid slot {slot.toNat}"
  | divideByZero => "division by zero"
  | privilegeViolation required current =>
    s!"privilege violation: instruction requires level {required.toNat}, " ++
      s!"current level is {current.toNat}"
  | softwareInterrupt number _ => s!"software interrupt {number.toNat}"
  | guestTrap reason _ _ => s!"VM trap {reason.name}"

/-! ## Fatal errors -/

/-- A table of descriptors in memory. -/
inductive TableKind where
  | segment | guest
deriving DecidableEq, Repr

/-- The name of a table in messages. -/
def TableKind.name : TableKind → String
  | segment => "segment"
  | guest => "VM"

/-- A failure that stops the machine. -/
inductive FatalError where
  /-- Memory refused an access. -/
  | memory (error : MemoryError)
  /-- A row of a table has the given defect. -/
  | malformedTable (table : TableKind) (base : Word) (row : Nat) (reason : String)
  /-- An instruction has a result and no place for it. -/
  | missingWriteTarget (opcode : Opcode)
  /-- No rule executes this opcode. -/
  | noHandler (opcode : Opcode)
  /-- No general register has this number. -/
  | invalidRegister (index : Nat)
  /-- No interrupt has this number. -/
  | interruptOutOfRange (number : Word)
  /-- The guest table has no such row. -/
  | unknownGuestSlot (slot : Word)
  /-- A guest was to be left while none runs. -/
  | notInGuest
  /-- A fault arose while the frame of an interrupt was pushed. -/
  | doubleFault (number : Word) (fault : Fault)
  /-- The console refused a byte. -/
  | console (text : String)
deriving DecidableEq, Repr

/-- The error as text. -/
def FatalError.message : FatalError → String
  | memory error => s!"memory error: {error.message}"
  | malformedTable table base row reason =>
    s!"malformed {table.name} table at {Text.prefixedHex8 base.toNat}, row {row}: {reason}"
  | missingWriteTarget opcode =>
    s!"{opcode.mnemonic} produced a result but operand 1 has no write target"
  | noHandler opcode => s!"no handler covers {opcode.mnemonic}"
  | invalidRegister index => s!"register r{index} does not exist"
  | interruptOutOfRange number =>
    s!"interrupt number {number.toNat} out of range (max {Interrupt.last.toNat})"
  | unknownGuestSlot slot => s!"VM slot {slot.toNat} is not present in the VM table"
  | notInGuest => "VM-exit requested while no guest is running"
  | doubleFault number fault =>
    s!"double fault while delivering interrupt {number.toNat}: {fault.message}"
  | console text => s!"console output failed: {text}"

/-! ## Exceptions -/

/-- What ends an instruction early. -/
inductive Exception where
  /-- An event the running program can see. -/
  | fault (f : Fault)
  /-- A failure that stops the machine. -/
  | fatal (e : FatalError)
deriving DecidableEq, Repr

/-- The exception as text. -/
def Exception.message : Exception → String
  | .fault f => f.message
  | .fatal e => e.message

end WordMachine
