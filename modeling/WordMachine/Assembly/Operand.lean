import WordMachine.Instruction.Basic

/-!
# Assembling one instruction

`assemble` turns an opcode, a privilege level and written operands into the
instruction word and its extra words.  It checks them against the same table
that decoding uses, and reports the first thing wrong: the number of operands,
then for each operand its mode and then its register number.
-/

namespace WordMachine

/-- The segment a memory operand goes through. -/
inductive DataSegment where
  /-- The data segment. -/
  | ds
  /-- The extra data segment. -/
  | es
deriving DecidableEq, Repr

/-- A written operand. -/
inductive Operand where
  /-- A literal. -/
  | immediate (value : Word)
  /-- A general register. -/
  | register (index : Nat)
  /-- A memory cell at `address`, with a base register added if there is one, and taken as a
  pointer if it is indirect. -/
  | memory (segment : DataSegment) (base : Option Nat) (address : Word) (indirect : Bool)
  /-- A control register. -/
  | control (register : ControlRegister)
deriving DecidableEq, Repr

/-- Why an instruction cannot be assembled.  Operand positions count from one. -/
inductive EncodeError where
  /-- The opcode takes another number of operands. -/
  | arityMismatch (opcode : Opcode) (expected found : Nat)
  /-- The opcode does not take this mode in this position. -/
  | illegalOperand (position : Nat) (opcode : Opcode) (kind : OperandKind)
  /-- No general register has this number. -/
  | registerOutOfRange (index : Nat)
deriving DecidableEq, Repr

/-- The error as text. -/
def EncodeError.message : EncodeError → String
  | arityMismatch opcode expected found =>
    s!"{opcode.mnemonic} takes {expected} operand(s), got {found}"
  | illegalOperand position opcode kind =>
    s!"operand {position}: {kind.name} is not allowed for {opcode.mnemonic}"
  | registerOutOfRange index => s!"register r{index} does not exist"

namespace Operand

/-- The addressing mode of an operand. -/
def kind : Operand → OperandKind
  | immediate _ => .immediate
  | register _ => .register
  | memory .ds _ _ false => .singleDs
  | memory .es _ _ false => .singleEs
  | memory .ds _ _ true => .doubleDs
  | memory .es _ _ true => .doubleEs
  | control _ => .control

/-- The register field for a general register. -/
def generalRegister (index : Nat) : Except EncodeError (Fin 32) :=
  if h : index < registerCount then .ok ⟨index, Nat.lt_succ_of_lt h⟩
  else .error (.registerOutOfRange index)

/-- The register field of the operand byte. -/
def registerField : Operand → Except EncodeError (Fin 32)
  | immediate _ => .ok ⟨0, Nat.zero_lt_succ 31⟩
  | register index => generalRegister index
  | memory _ (some base) _ _ => generalRegister base
  | memory _ none _ _ => .ok ⟨noRegister, Nat.lt_succ_self 31⟩
  | control r => .ok ⟨r.index, Nat.lt_trans r.index_lt (by decide)⟩

/-- The word an operand adds after the instruction word. -/
def extraWord? : Operand → Option Word
  | immediate value => some value
  | memory _ _ address _ => some address
  | register _ | control _ => none

/-- The operand byte for a position of an opcode. -/
def descriptor (opcode : Opcode) (position : Nat) (legal : OperandClass) (o : Operand) :
    Except EncodeError OperandDescriptor :=
  if legal.accepts o.kind then o.registerField.map (⟨o.kind, ·⟩)
  else .error (.illegalOperand position opcode o.kind)

/-- The operand bytes for the positions from `position` on. -/
def descriptors (opcode : Opcode) :
    Nat → List OperandClass → List Operand → Except EncodeError (List OperandDescriptor)
  | position, legal :: classes, o :: operands => do
      let d ← o.descriptor opcode position legal
      let rest ← descriptors opcode (position + 1) classes operands
      return d :: rest
  | _, _, _ => .ok []

theorem isSome_extraWord? (o : Operand) : o.extraWord?.isSome = o.kind.hasExtraWord := by
  match o with
  | immediate _ | register _ | control _ => rfl
  | memory .ds _ _ false | memory .es _ _ false | memory .ds _ _ true | memory .es _ _ true => rfl

end Operand

/-- The words of an instruction: the instruction word, then the extra words in the order of the
operands. -/
def assemble (opcode : Opcode) (privilege : UInt8) (operands : List Operand) :
    Except EncodeError (List Word) :=
  if operands.length = opcode.arity then do
    let descriptors ← Operand.descriptors opcode 1 opcode.form.operands operands
    return (Instruction.mk opcode privilege descriptors).encode ::
      operands.filterMap Operand.extraWord?
  else .error (.arityMismatch opcode opcode.arity operands.length)

end WordMachine
