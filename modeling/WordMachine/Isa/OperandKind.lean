/-!
# Addressing modes

An operand is a literal, a general register, a control register, or a memory
cell.  A memory operand names its segment, the data segment `ds` or the extra
segment `es`, and whether the addressed cell holds the value (one dereference)
or a pointer to it (two).

Each mode has a tag of three bits.  Tag 7 is unassigned.  The literal and the
memory modes take one extra word after the instruction word.

A *class* is the set of modes an instruction accepts in one operand position.
-/

namespace WordMachine

/-- The addressing mode of an operand. -/
inductive OperandKind where
  /-- A literal in the extra word. -/
  | immediate
  /-- A general register. -/
  | register
  /-- `ds:r(a)`: the cell at `r + a` in the data segment. -/
  | singleDs
  /-- `es:r(a)`: the cell at `r + a` in the extra segment. -/
  | singleEs
  /-- `ds:r[a]`: the cell that the cell at `r + a` in the data segment points to. -/
  | doubleDs
  /-- `es:r[a]`: the cell that the cell at `r + a` in the extra segment points to. -/
  | doubleEs
  /-- A control register. -/
  | control
deriving DecidableEq, Repr, Inhabited

namespace OperandKind

/-- All modes, in the order of their tags. -/
def all : List OperandKind :=
  [.immediate, .register, .singleDs, .singleEs, .doubleDs, .doubleEs, .control]

/-- The three-bit tag of a mode. -/
def tag : OperandKind → UInt8
  | immediate => 0
  | register => 1
  | singleDs => 2
  | singleEs => 3
  | doubleDs => 4
  | doubleEs => 5
  | control => 6

/-- The mode with the given tag. -/
def ofTag? (tag : UInt8) : Option OperandKind := all.find? (·.tag == tag)

/-- The name of a mode in messages. -/
def name : OperandKind → String
  | immediate => "Immediate"
  | register => "Register"
  | singleDs => "MemorySingleDs"
  | singleEs => "MemorySingleEs"
  | doubleDs => "MemoryDoubleDs"
  | doubleEs => "MemoryDoubleEs"
  | control => "SpecialRegister"

/-- Whether the operand takes an extra word. -/
def hasExtraWord : OperandKind → Bool
  | register | control => false
  | _ => true

/-- Whether the operand is a memory cell. -/
def isMemory : OperandKind → Bool
  | singleDs | singleEs | doubleDs | doubleEs => true
  | _ => false

/-- Whether the operand goes through a pointer. -/
def isDouble : OperandKind → Bool
  | doubleDs | doubleEs => true
  | _ => false

theorem ofTag?_tag (k : OperandKind) : ofTag? k.tag = some k := by
  cases k <;> decide

example : ofTag? 7 = none := by decide

end OperandKind

/-- The set of modes an instruction accepts in one operand position. -/
inductive OperandClass where
  /-- What can receive a result: a register or a memory cell. -/
  | destination
  /-- What can supply a value: a destination or a literal. -/
  | source
  /-- A destination or a control register. -/
  | moveDestination
  /-- A source or a control register. -/
  | moveSource
  /-- A literal only. -/
  | literal
deriving DecidableEq, Repr

/-- Whether a class contains a mode. -/
def OperandClass.accepts : OperandClass → OperandKind → Bool
  | destination, k => k ≠ .immediate ∧ k ≠ .control
  | source, k => k ≠ .control
  | moveDestination, k => k ≠ .immediate
  | moveSource, _ => true
  | literal, k => k = .immediate

end WordMachine
