import WordMachine.Listing.Next
import WordMachine.Machine.Report
import WordMachine.Machine.Run
import WordMachine.Text.Utf8

/-!
# Sessions

A session holds a machine and the image it runs, for use from another program.
Its operations take and give plain values.  One that fails has still done what
came before the failure.
-/

namespace WordMachine

/-- A machine and its image. -/
structure Session where
  /-- The machine. -/
  machine : Machine := .initial
  /-- The image it starts from. -/
  image : List Word := []
deriving Inhabited

/-- Why an operation on a session failed. -/
inductive SessionError where
  /-- The bytes are no image, or it does not fit. -/
  | image (error : AccessFailure)
  /-- The machine takes no more steps. -/
  | stopped
  /-- The machine met a fatal error. -/
  | fatal (error : FatalError)
deriving DecidableEq, Repr

/-- The error as text. -/
def SessionError.message : SessionError → String
  | image error => error.message
  | stopped => "CPU is halted"
  | fatal error => error.message

namespace Session

/-- An operation on a session. -/
abbrev Operation (α : Type) := EStateM SessionError Session α

/-- Work on the machine of a session. -/
def onMachine {α : Type} (x : Action FatalError α) : Operation α := fun s =>
  match x s.machine with
  | .ok a machine => .ok a { s with machine }
  | .error e machine => .error (.fatal e) { s with machine }

/-- Starts over with a new machine. -/
def reset : Operation Unit := fun s =>
  match Machine.initial.load s.image with
  | .ok machine => .ok () { s with machine }
  | .error e => .error (.image e) { s with machine := .initial }

/-- Takes a new image from its bytes, and says how many words it has. -/
def load (bytes : List UInt8) : Operation Nat := do
  match Image.ofBytes bytes with
  | .error e => throw (.image (.refused e))
  | .ok image =>
    modify fun s => { s with image }
    reset
    return image.length

/-- Takes a step, and says which instruction was next. -/
def step : Operation String := do
  if (← get).machine.isRunning then
    let text ← onMachine Machine.nextText
    let _ ← onMachine Machine.step
    return text
  else throw .stopped

/-- Takes at most `limit` steps, and says how many there were since the start. -/
def run (limit : Nat) : Operation Nat := do
  let _ ← onMachine (Machine.runLimited limit)
  return (← get).machine.cycles.toNat

/-- The value of a general register, if it can be read. -/
def register (index : Nat) : Operation (Option Word) := do
  return (← onMachine (Machine.readRegister index).attempt).toOption

/-- The value of the control register with a number, if there is one. -/
def control (s : Session) (index : Nat) : Option Word :=
  (ControlRegister.ofIndex? index).map s.machine.control

/-- The contents of a cell. -/
def memoryAt (s : Session) (address : Word) : Word := s.machine.memory.get address

/-- The full report on the machine. -/
def dump : Operation String := onMachine Machine.dump

/-- What the machine printed since the last time. -/
def takeOutput : Operation String := do
  let (bytes, machine) := (← get).machine.takeConsole
  modify fun s => { s with machine }
  return Text.Utf8.decode bytes.toList

end Session

end WordMachine
