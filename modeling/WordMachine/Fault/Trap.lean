import WordMachine.Word

/-!
# Interrupts and traps

An interrupt has a number and enters the host program at a fixed address.
While a guest runs, the same event becomes a trap: the guest is left and the
host finds the reason on its stack.
-/

namespace WordMachine

namespace Interrupt

/-- An access outside the selected segment. -/
def segmentViolation : Word := 1

/-- An instruction that cannot be executed. -/
def invalidInstruction : Word := 2

/-- A division by zero. -/
def divideByZero : Word := 3

/-- A trap out of a guest. -/
def guestTrap : Word := 4

/-- The timer. -/
def timer : Word := 5

/-- An `INT` instruction. -/
def software : Word := 6

/-- An instruction above the current privilege level. -/
def privilegeViolation : Word := 7

/-- The greatest interrupt number. -/
def last : Word := 32

/-- The address where the handler of an interrupt starts. -/
def vector (number : Word) : Word := number * 2

end Interrupt

/-- Why a guest was left. -/
inductive TrapReason where
  /-- An access outside the selected segment. -/
  | segmentViolation
  /-- An instruction that cannot be executed. -/
  | invalidInstruction
  /-- A division by zero. -/
  | divideByZero
  /-- An interrupt with no reason of its own. -/
  | hypervisorTrap
  /-- An `INT` instruction. -/
  | software
  /-- An instruction above the current privilege level. -/
  | privilegeViolation
  /-- The guest read a control register. -/
  | controlRegisterRead
  /-- The guest wrote a control register. -/
  | controlRegisterWrite
  /-- The guest halted. -/
  | halt
  /-- The guest used the console. -/
  | hardwareAccess
  /-- The guest tried to enter a guest. -/
  | vmResume
  /-- The timer. -/
  | timer
deriving DecidableEq, Repr

namespace TrapReason

/-- All reasons, in the order of their numbers. -/
def all : List TrapReason :=
  [.segmentViolation, .invalidInstruction, .divideByZero, .hypervisorTrap, .software,
    .privilegeViolation, .controlRegisterRead, .controlRegisterWrite, .halt, .hardwareAccess,
    .vmResume, .timer]

/-- The number of a reason on the stack of the host. -/
def number : TrapReason → Word
  | segmentViolation => 0
  | invalidInstruction => 1
  | divideByZero => 2
  | hypervisorTrap => 3
  | software => 4
  | privilegeViolation => 5
  | controlRegisterRead => 6
  | controlRegisterWrite => 7
  | halt => 8
  | hardwareAccess => 9
  | vmResume => 10
  | timer => 11

/-- The name of a reason in messages. -/
def name : TrapReason → String
  | segmentViolation => "SegmentViolation"
  | invalidInstruction => "InvalidInstruction"
  | divideByZero => "DivideByZero"
  | hypervisorTrap => "HypervisorTrap"
  | software => "Software"
  | privilegeViolation => "PrivilegeViolation"
  | controlRegisterRead => "SpecialRegisterRead"
  | controlRegisterWrite => "SpecialRegisterWrite"
  | halt => "Halt"
  | hardwareAccess => "HardwareAccess"
  | vmResume => "VmResume"
  | timer => "Timer"

/-- The reason for which an interrupt leaves a guest. -/
def ofInterrupt (number : Word) : TrapReason :=
  if number = Interrupt.segmentViolation then .segmentViolation
  else if number = Interrupt.invalidInstruction then .invalidInstruction
  else if number = Interrupt.divideByZero then .divideByZero
  else if number = Interrupt.software then .software
  else if number = Interrupt.timer then .timer
  else if number = Interrupt.privilegeViolation then .privilegeViolation
  else .hypervisorTrap

end TrapReason

end WordMachine
