import WordMachine.Machine.Execute

/-!
# Running

A step delivers a pending timer interrupt, if interrupts are enabled, and
otherwise advances the timer and executes one instruction.  A fault of the
instruction is delivered before the step ends.  A fatal error stops the
machine, and a machine that is not running takes no more steps.

A run takes steps until the machine stops or a limit is reached.  The step
counter has 64 bits, and no run takes it past its greatest value.  That bounds
a run with no other limit.
-/

namespace WordMachine.Machine

/-- What a step does on a running machine. -/
def cycle : Action FatalError Unit := do
  let p ← processorState
  if p.timerPending && p.interruptsEnabled then
    modifyProcessor (·.clearTimerPending)
    raiseInterrupt Interrupt.timer p.ip []
  else
    modifyProcessor (·.tick)
    match ← (executeAt p.ip).attempt with
    | .ok () => return
    | .error (.fatal e) => throw e
    | .error (.fault f) => deliverFault p.ip f

/-- Takes a step, and says whether the machine is still running. -/
def step : Action FatalError Bool := fun m =>
  if m.isRunning then
    match cycle { m with cycles := m.cycles + 1 } with
    | .ok () m => .ok m.isRunning m
    | .error e m => .error e { m with status := .error }
  else .ok false m

theorem step_of_not_isRunning {m : Machine} (h : m.isRunning = false) : step m = .ok false m := by
  simp [step, h]

/-- Takes steps as long as the machine runs and its counter is below `bound`, but at most `fuel`. -/
def runBelow (bound : Nat) : Nat → Action FatalError Unit
  | 0 => pure ()
  | fuel + 1 => do
      if (← get).cycles.toNat < bound then
        if ← step then runBelow bound fuel

/-- Takes steps as long as the machine runs and its counter is below `bound`.  Each step counts
itself, so the fuel does not run out before. -/
def runTo (bound : Nat) : Action FatalError Unit := do
  runBelow bound (bound - (← get).cycles.toNat)

/-- The greatest value of the step counter. -/
def lastCycle : Nat := 0xFFFFFFFFFFFFFFFF

/-- Runs for at most `limit` steps, and says how many there were. -/
def runLimited (limit : Nat) : Action FatalError Nat := do
  let start := (← get).cycles.toNat
  runTo (min (start + limit) lastCycle)
  return (← get).cycles.toNat - start

/-- Runs until the machine stops, and says how many steps there were. -/
def run : Action FatalError Nat := runLimited lastCycle

end WordMachine.Machine
