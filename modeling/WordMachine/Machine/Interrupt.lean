import WordMachine.Machine.Guest
import WordMachine.Machine.Stack

/-!
# Interrupts and traps

In the host, an interrupt pushes its extra words and then the address to return
to, and execution goes on at the vector of its number.  In a guest it becomes a
trap.  The guest is saved with the address to resume at, the host takes over,
and finds on its stack the extra words, the number of the reason, and on top
the number of the guest.
-/

namespace WordMachine.Machine

/-- Leaves the running guest on behalf of an interrupt. -/
def leaveFor (number : Word) (reason : TrapReason) (resumeIp : Word) (extra : List Word) :
    Action FatalError Unit := do
  let p ← processorState
  if p.inGuest then
    modifyProcessor fun p => { p with ip := resumeIp }
    saveSlot p.slot
    leaveGuest
    pushFrame number (extra ++ [reason.number, p.slot])
  else throw .notInGuest

/-- Leaves the running guest. -/
def raiseTrap (reason : TrapReason) (resumeIp : Word) (extra : List Word) :
    Action FatalError Unit :=
  leaveFor Interrupt.guestTrap reason resumeIp extra

/-- Delivers an interrupt. -/
def raiseInterrupt (number returnIp : Word) (extra : List Word) : Action FatalError Unit := do
  if Interrupt.last < number then throw (.interruptOutOfRange number)
  if (← processorState).inGuest then
    leaveFor number (.ofInterrupt number) returnIp extra
  else
    pushFrame number (extra ++ [returnIp])
    modifyProcessor fun p => { p with ip := Interrupt.vector number }

/-- Delivers a fault of the instruction at `ip`. -/
def deliverFault (ip : Word) : Fault → Action FatalError Unit
  | .segmentViolation kind offset =>
    raiseInterrupt Interrupt.segmentViolation ip [offset, kind.number]
  | .invalidInstruction _ | .invalidGuestSlot _ => raiseInterrupt Interrupt.invalidInstruction ip []
  | .divideByZero => raiseInterrupt Interrupt.divideByZero ip []
  | .privilegeViolation _ _ => raiseInterrupt Interrupt.privilegeViolation ip []
  | .softwareInterrupt number returnIp => raiseInterrupt Interrupt.software returnIp [number]
  | .guestTrap reason resumeIp extra => raiseTrap reason resumeIp extra

end WordMachine.Machine
