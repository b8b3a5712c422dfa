import WordMachine.Word

/-!
# Registers and flag words

The machine has 31 general registers.  They live in memory, one cell each, so
this module holds only their numbering.  Number 31 stands for "no register"
in a memory operand.

The ten control registers are part of the processor.  Two of them, the flags
word and the interrupt control word, are read bit by bit.  They are kept as
whole words, so that a saved context comes back with every bit it had.
-/

namespace WordMachine

/-- The number of general registers. -/
def registerCount : Nat := 31

/-- The register number that means "no base register". -/
def noRegister : Nat := 31

/-- The register that `ENTER`, `LEAVE` and `GETARGUMENT` use as frame pointer. -/
def framePointer : Nat := 30

/-- The cell of the first general register when no segment table is installed. -/
def flatRegisterBase : Word := 0x2000

/-! ## Control registers -/

/-- A control register. -/
inductive ControlRegister where
  /-- The address of the segment table. -/
  | segmentTable
  /-- The address of the guest table. -/
  | guestTable
  /-- The code selector. -/
  | cs
  /-- The data selector. -/
  | ds
  /-- The extra data selector. -/
  | es
  /-- The register selector. -/
  | rs
  /-- The stack selector. -/
  | ss
  /-- The timer counter. -/
  | counter
  /-- The value at which the timer fires. -/
  | compare
  /-- The interrupt control word. -/
  | interrupt
deriving DecidableEq, Repr, Inhabited

namespace ControlRegister

/-- All control registers, in the order of their numbers. -/
def all : List ControlRegister :=
  [.segmentTable, .guestTable, .cs, .ds, .es, .rs, .ss, .counter, .compare, .interrupt]

/-- The number of a control register. -/
def index : ControlRegister → Nat
  | segmentTable => 0
  | guestTable => 1
  | cs => 2
  | ds => 3
  | es => 4
  | rs => 5
  | ss => 6
  | counter => 7
  | compare => 8
  | interrupt => 9

/-- The control register with the given number. -/
def ofIndex? (index : Nat) : Option ControlRegister := all.find? (·.index == index)

/-- The name in assembly text. -/
def name : ControlRegister → String
  | segmentTable => "SEGTBL"
  | guestTable => "VMTBL"
  | cs => "CS"
  | ds => "DS"
  | es => "ES"
  | rs => "RS"
  | ss => "SS"
  | counter => "COUNTER"
  | compare => "COMPARE"
  | interrupt => "INT"

theorem index_lt (r : ControlRegister) : r.index < 10 := by cases r <;> decide

theorem ofIndex?_index (r : ControlRegister) : ofIndex? r.index = some r := by
  cases r <;> decide

theorem index_of_ofIndex? {index : Nat} {r : ControlRegister} (known : ofIndex? index = some r) :
    r.index = index :=
  eq_of_beq (List.find?_some known :)

end ControlRegister

/-! ## The flags word -/

/-- The flags word.  Only a comparison writes it. -/
structure Flags where
  /-- The whole word. -/
  bits : Word := 0
deriving DecidableEq, Repr, Inhabited

namespace Flags

/-- The flags word with exactly these two flags. -/
def make (zero greaterEqual : Bool) : Flags :=
  ⟨(if zero then 1 else 0) ||| (if greaterEqual then 2 else 0)⟩

/-- Whether the compared values were equal. -/
def zero (f : Flags) : Bool := f.bits &&& 1 != 0

/-- Whether the first compared value was at least the second. -/
def greaterEqual (f : Flags) : Bool := f.bits &&& 2 != 0

/-- The two flags as text. -/
def text (f : Flags) : String :=
  String.ofList ['[', if f.zero then 'Z' else '-', if f.greaterEqual then 'G' else '-', ']']

theorem zero_make (z g : Bool) : (make z g).zero = z := by cases z <;> cases g <;> decide

theorem greaterEqual_make (z g : Bool) : (make z g).greaterEqual = g := by
  cases z <;> cases g <;> decide

end Flags

/-! ## The interrupt control word -/

/-- The interrupt control word. -/
structure InterruptControl where
  /-- The whole word. -/
  bits : Word := 0
deriving DecidableEq, Repr, Inhabited

namespace InterruptControl

/-- The mask of the bit that lets interrupts be delivered. -/
def enabledMask : Word := 1

/-- The mask of the bit that makes the timer count. -/
def timerEnabledMask : Word := 2

/-- The mask of the bit that records a timer interrupt not yet delivered. -/
def timerPendingMask : Word := 4

/-- Whether a pending timer interrupt may be delivered. -/
def enabled (c : InterruptControl) : Bool := c.bits &&& enabledMask != 0

/-- Whether the timer counts. -/
def timerEnabled (c : InterruptControl) : Bool := c.bits &&& timerEnabledMask != 0

/-- Whether a timer interrupt waits for delivery. -/
def timerPending (c : InterruptControl) : Bool := c.bits &&& timerPendingMask != 0

/-- The word with the bits of a mask set or cleared. -/
def setBits (c : InterruptControl) (mask : Word) (on : Bool) : InterruptControl :=
  ⟨if on then c.bits ||| mask else c.bits &&& ~~~mask⟩

/-- The three bits as text. -/
def text (c : InterruptControl) : String :=
  String.ofList ['[', if c.enabled then 'I' else '-', if c.timerEnabled then 'T' else '-',
    if c.timerPending then 'P' else '-', ']']

end InterruptControl

end WordMachine
