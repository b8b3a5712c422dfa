import Std.Data.ExtTreeSet
import WordMachine.Listing.Next
import WordMachine.Machine.Report
import WordMachine.Machine.Run
import WordMachine.Text.Utf8

/-!
# The debugger

A debugger holds a machine, the image it started from, and a set of
breakpoints.  It takes single steps, or *runs*: while it is running, each tick
takes one step, and stops the run instead when the machine has stopped or the
next instruction has a breakpoint.  Breakpoints are addresses, not offsets.

What the machine prints is collected after each step and read as UTF-8 by
itself, so a character whose bytes come from two steps is not put together.

Looking up the next instruction may read the segment table, and so changes the
copy the machine keeps.  That is why even operations that only look are
operations on the debugger.
-/

namespace WordMachine

/-- The state of a debugger. -/
structure Debugger where
  /-- The machine. -/
  machine : Machine := .initial
  /-- The image that a reset loads. -/
  image : List Word := []
  /-- The addresses that stop a run. -/
  breakpoints : Std.ExtTreeSet Word compare := ∅
  /-- Whether ticks take steps. -/
  isRunning : Bool := false
  /-- What happened last. -/
  status : String := ""
  /-- The first address in the view of memory. -/
  scroll : Word := 0
  /-- The text printed so far. -/
  output : String := ""
deriving Inhabited

namespace Debugger

/-- An operation on a debugger. -/
abbrev Operation (α : Type) := StateM Debugger α

/-- Work on the machine of a debugger, with its outcome. -/
def onMachine {ε α : Type} (x : Action ε α) : Operation (Except ε α) := fun d =>
  match x d.machine with
  | .ok a machine => (.ok a, { d with machine })
  | .error e machine => (.error e, { d with machine })

/-- Work on the machine of a debugger that cannot fail. -/
def look {α : Type} (x : Action Empty α) : Operation α := fun d =>
  match x d.machine with
  | .ok a machine => (a, { d with machine })

/-- Says what happened. -/
def say (status : String) : Operation Unit := modify fun d => { d with status }

/-- Ends a run, and says why. -/
def stop (status : String) : Operation Unit := modify fun d => { d with isRunning := false, status }

/-- The address of the next instruction, if its offset translates. -/
def currentAddress : Operation (Option Word) := do
  return (← onMachine Machine.nextInstructionAddress).toOption

/-- Starts over from the image.  Breakpoints and the view of memory stay. -/
def reset : Operation Unit := modify fun d =>
  let (machine, status) := match Machine.initial.load d.image with
    | .ok machine => (machine, "Reset. Ready.")
    | .error e => (.initial, s!"Error: {e.message}")
  { d with machine, status, isRunning := false, output := "" }

/-- The debugger that starts on an image. -/
def start (image : List Word) : Debugger :=
  let (_, d) := reset.run { image }
  { d with status := "Ready. Press 's' to step, 'r' to run, 'q' to quit." }

/-- Adds what the machine printed to the output. -/
def collectOutput : Operation Unit := modify fun d =>
  let (bytes, machine) := d.machine.takeConsole
  { d with machine, output := d.output ++ Text.Utf8.decode bytes.toList }

/-- The text of the instruction at an address, if there is one. -/
def textAt (address : Option Word) : Operation String := do
  let memory := (← get).machine.memory
  return address.elim unknownText fun a => (memory.line a).text

/-- Takes a step. -/
def step : Operation Unit := do
  let machine := (← get).machine
  if machine.isRunning then
    let text ← textAt (← currentAddress)
    match ← onMachine Machine.step with
    | .ok _ => say s!"IP={Text.prefixedHex8 machine.processor.ip.toNat}: {text}"
    | .error e => stop s!"Error: {e.message}"
    collectOutput
  else stop s!"CPU stopped: {machine.status.name}"

/-- Starts a run. -/
def run : Operation Unit := modify fun d => { d with isRunning := true, status := "Running..." }

/-- Goes on with a run. -/
def tick : Operation Unit := do
  let d ← get
  if d.isRunning then
    if d.machine.isRunning then
      match ← currentAddress with
      | none => step
      | some address =>
        if d.breakpoints.contains address then
          stop s!"Breakpoint at {Text.prefixedHex8 address.toNat}"
        else step
    else stop s!"Stopped after {d.machine.cycles.toNat} cycles"

/-- Sets a breakpoint at the next instruction, or removes the one there. -/
def toggleBreakpoint : Operation Unit := do
  match ← currentAddress with
  | none => say "Current IP is not mapped"
  | some address =>
    let place := Text.prefixedHex8 address.toNat
    if (← get).breakpoints.contains address then
      modify fun d => { d with breakpoints := d.breakpoints.erase address }
      say s!"Removed breakpoint at {place}"
    else
      modify fun d => { d with breakpoints := d.breakpoints.insert address }
      say s!"Set breakpoint at {place}"

/-- The lines for a number of instructions from an address on, or fewer where memory ends. -/
def linesFrom (memory : Memory) : Nat → Word → List Listing.Line
  | 0, _ => []
  | count + 1, address =>
    let line := memory.line address
    line :: if address.toNat + line.length < Word.count then
      linesFrom memory count (address + UInt32.ofNat line.length) else []

/-- The lines from the next instruction on. -/
def listing (count : Nat) : Operation (List Listing.Line) := do
  match ← currentAddress with
  | none => return []
  | some address => return linesFrom (← get).machine.memory count address

/-- The values of the general registers, with `none` for those that cannot be read. -/
def registers : Operation (List (Option Word)) := look Machine.registers

end Debugger

end WordMachine
