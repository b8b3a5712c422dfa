import WordMachine.Memory.Image
import WordMachine.Processor.Basic

/-!
# The machine

A machine is a processor and a memory, with the two tables it keeps, what it
printed and how far it has run.

An `Action` is a step of work on a machine that may fail.  Failing does not
undo what was done before, so an instruction that fails halfway leaves the
first half in place.  Actions that only the host level performs fail with a
fatal error.  Those inside an instruction fail with an exception, which may
also be a fault.
-/

namespace WordMachine

/-- Whether the machine can take another step. -/
inductive Status where
  /-- It can. -/
  | running
  /-- It executed `HALT`. -/
  | halted
  /-- It met a fatal error. -/
  | error
deriving DecidableEq, Repr, Inhabited

/-- The name of a status in reports. -/
def Status.name : Status → String
  | running => "Running"
  | halted => "Halted"
  | error => "Error"

/-- The state of the machine. -/
structure Machine where
  /-- The processor. -/
  processor : Processor := .initial
  /-- The segment table as last read. -/
  segments : TableCache Segment := {}
  /-- The guest table as last read. -/
  guests : TableCache Context := {}
  /-- The memory. -/
  memory : Memory := .empty
  /-- Whether it can take another step. -/
  status : Status := .running
  /-- The number of steps since the last reset. -/
  cycles : UInt64 := 0
  /-- The bytes printed and not yet taken. -/
  console : Array UInt8 := #[]
  /-- The instruction decoded last. -/
  lastInstruction : Option Instruction := none
deriving Inhabited

/-- Work on a machine that may fail. -/
abbrev Action (ε α : Type) := EStateM ε Machine α

namespace Action

variable {ε ε' α : Type}

/-- A fatal error raised inside an instruction. -/
def ofFatal (x : Action FatalError α) : Action Exception α := x.adaptExcept .fatal

instance : MonadLift (Action FatalError) (Action Exception) := ⟨ofFatal⟩

/-- The value that work comes to, or the failure. -/
def outcome (x : Action ε α) (m : Machine) : Except ε α :=
  match x m with
  | .ok a _ => .ok a
  | .error e _ => .error e

/-- The machine after work, whether it failed or not. -/
def after (x : Action ε α) (m : Machine) : Machine :=
  match x m with
  | .ok _ m => m
  | .error _ m => m

/-- The outcome of work as a value.  What it did stays done. -/
def attempt (x : Action ε α) : Action ε' (Except ε α) := fun m =>
  match x m with
  | .ok a m => .ok (.ok a) m
  | .error e m => .ok (.error e) m

theorem attempt_apply (x : Action ε α) (m : Machine) :
    (x.attempt : Action ε' (Except ε α)) m = .ok (x.outcome m) (x.after m) := by
  unfold attempt outcome after
  cases x m <;> rfl

/-- Ends an instruction with a fault. -/
def fault (f : Fault) : Action Exception α := throw (.fault f)

end Action

namespace Machine

variable {ε : Type}

/-- The machine with nothing in memory. -/
def initial : Machine := {}

/-- The machine with words in memory from address zero on. -/
def load (m : Machine) (words : List Word) : Except AccessFailure Machine :=
  (m.memory.writeBlock 0 words).map fun memory => { m with memory }

/-- The machine that starts on an image. -/
def ofImage (bytes : List UInt8) : Except AccessFailure Machine :=
  (Memory.ofImage bytes).map fun memory => { initial with memory }

theorem ofImage_toBytes (words : List Word) :
    ofImage (Image.toBytes words) = initial.load words := by
  simp only [ofImage, Memory.ofImage, Image.ofBytes_toBytes]
  rfl

/-- The machine with its processor reset. -/
def resetProcessor (m : Machine) : Machine :=
  { m with processor := .initial, segments := {}, guests := {} }

/-- The machine ready to start over.  Memory and the printed bytes stay. -/
def reset (m : Machine) : Machine :=
  { m.resetProcessor with status := .running, cycles := 0, lastInstruction := none }

/-- Whether the machine can take another step. -/
def isRunning (m : Machine) : Bool := m.status = .running

/-- Whether the machine executed `HALT`. -/
def isHalted (m : Machine) : Bool := m.status = .halted

/-- The value of a control register. -/
def control (m : Machine) (r : ControlRegister) : Word := m.processor.control r

/-- The machine after a write to a control register.  Writing a table register forgets the table
read from the old address. -/
def setControl (m : Machine) (r : ControlRegister) (value : Word) : Machine :=
  let m := { m with processor := m.processor.setControl r value }
  match r with
  | .segmentTable => { m with segments := m.segments.invalidate }
  | .guestTable => { m with guests := m.guests.invalidate }
  | _ => m

/-- The machine after it prints the lowest byte of a word. -/
def emit (m : Machine) (value : Word) : Machine :=
  { m with console := m.console.push value.toUInt8 }

/-- The bytes printed and not yet taken, and the machine after they are taken. -/
def takeConsole (m : Machine) : Array UInt8 × Machine := (m.console, { m with console := #[] })

/-! ## Small actions -/

/-- The current processor. -/
def processorState : Action ε Processor := fun m => .ok m.processor m

/-- Changes the processor. -/
def modifyProcessor (f : Processor → Processor) : Action ε Unit := fun m =>
  .ok () { m with processor := f m.processor }

/-- Reads a cell. -/
def readCell (address : Word) : Action ε Word := fun m => .ok (m.memory.get address) m

/-- Writes a cell. -/
def writeCell (address value : Word) : Action ε Unit := fun m =>
  .ok () { m with memory := m.memory.set address value }

end Machine

end WordMachine
