import WordMachine.Proofs.UsedDebugger

/-!
# Breakpoints

A run ends at the first machine where it `stopsAt`, which may be the one it starts
from.  Before that, every tick takes a step (`Going.tick`).  At that machine the
next tick ends the run without one (`Going.ends`), so that further ticks do
nothing (`Going.stopped`).
-/

namespace WordMachine.Debugger

variable {d : Debugger} {s : Machine} {words : List Word} {k t : Nat}
  {breakpoints : Std.ExtTreeSet Word compare}

/-! ## Ticks -/

/-- The debugger after a number of ticks. -/
def ticks : Nat → Debugger → Debugger
  | 0, d => d
  | n + 1, d => after tick (ticks n d)

theorem ticks_of_idle (idle : d.isRunning = false) (n : Nat) : ticks n d = d := by
  induction n with
  | zero => rfl
  | succ n ih => rw [ticks, ih, after_tick_of_idle idle]

theorem ticks_add (m n : Nat) (d : Debugger) : ticks (m + n) d = ticks n (ticks m d) := by
  induction n with
  | zero => rfl
  | succ n ih => exact congrArg (after tick) ih

/-- With a breakpoint in the way, a tick looks at most. -/
theorem looked_tick (stands : d.atBreakpoint = true) : d.machine.Looked (after tick d).machine :=
  (rests_tick (by simp [stepsNext, stands])).2.2

/-- Otherwise a tick of a run takes a step, and empties the console. -/
theorem machine_tick (used : Used words s d) (steps : d.stepsNext = true) :
    (after tick d).machine = (Machine.step.after d.machine).takeConsole.2 := by
  have follows := used.follows
  have running : d.machine.isRunning = true := by simp_all [stepsNext]
  have runs : s.takeConsole.2.isRunning = true := follows.isRunning.symm.trans running
  have same : Machine.step.after d.machine.mapped = Machine.step.after d.machine :=
    (follows.step_eq used.readInGuest runs).trans
      (Action.after_congr (follows.machine.step_eq used.readInGuest runs)).symm
  rw [(stepped_tick steps).machine, same]

/-! ## Runs -/

/-- A debugger whose run has not ended, unless the machine stopped. -/
structure Going (words : List Word) (breakpoints : Std.ExtTreeSet Word compare) (s : Machine)
    (d : Debugger) : Prop where
  used : Used words s d
  breakpoints : d.breakpoints = breakpoints
  going : d.isRunning = true ∨ s.isRunning = false

namespace Going

theorem run (used : Used words s d) : Going words d.breakpoints s (after Debugger.run d) :=
  ⟨used.run, rfl, .inl rfl⟩

theorem stepsNext_eq (h : Going words breakpoints s d) :
    d.stepsNext = !s.stopsAt breakpoints := by
  have stops := h.used.follows.stops
  rw [h.breakpoints] at stops
  rw [← stops, stepsNext]
  rcases h.going with going | stopped
  · simp [going]
  · simp [h.used.follows.isRunning, stopped]

theorem tick (h : Going words breakpoints s d) (clear : s.stopsAt breakpoints = false) :
    Going words breakpoints (Machine.step.after s) (after Debugger.tick d) := by
  have steps : d.stepsNext = true := by rw [h.stepsNext_eq, clear]; rfl
  have stepped := stepped_tick steps
  have used := h.used.tick
  rw [if_pos steps] at used
  have going : d.isRunning = true := by simp_all [stepsNext]
  have runs : s.isRunning = true := by simp_all [Machine.stopsAt]
  refine ⟨used, stepped.breakpoints.trans h.breakpoints, ?_⟩
  cases goesOn : (after Debugger.tick d).isRunning with
  | true => exact .inl rfl
  | false =>
    rcases stepped.ended goesOn with idle | stopped
    · cases going.symm.trans idle
    · rw [h.used.follows.step_eq h.used.readInGuest runs] at stopped
      rw [Machine.step_takeConsole s]
      exact .inr stopped

theorem ticks (h : Going words breakpoints s d)
    (clear : ∀ j < t, (s.afterSteps j).stopsAt breakpoints = false) :
    Going words breakpoints (s.afterSteps t) (Debugger.ticks t d) := by
  induction t with
  | zero => exact h
  | succ t ih =>
    exact (ih fun j before => clear j (Nat.lt_succ_of_lt before)).tick (clear t t.lt_succ_self)

/-- The run ends where it has to stop. -/
theorem ends (h : Going words breakpoints s d) (stops : s.stopsAt breakpoints = true) :
    Used words s (after Debugger.tick d) ∧ (after Debugger.tick d).isRunning = false := by
  have rests : d.stepsNext = false := by rw [h.stepsNext_eq, stops]; rfl
  have used := h.used.tick
  rw [rests, if_neg Bool.false_ne_true] at used
  refine ⟨used, ?_⟩
  cases going : d.isRunning with
  | false => rw [after_tick_of_idle going, going]
  | true =>
    cases running : d.machine.isRunning with
    | false =>
      obtain ⟨status, eq⟩ := after_tick_of_stopped going running
      rw [eq]
    | true =>
      have stands : d.atBreakpoint = true := by simpa [stepsNext, going, running] using rests
      obtain ⟨status, eq⟩ := after_tick_of_running going running
      rw [eq, stands, if_pos rfl]

/-- A run takes as many steps as lie before the first stop, however long it ticks. -/
theorem stopped (h : Going words breakpoints s d)
    (clear : ∀ j < k, (s.afterSteps j).stopsAt breakpoints = false)
    (stops : (s.afterSteps k).stopsAt breakpoints = true) (enough : k < t) :
    Used words (s.afterSteps k) (Debugger.ticks t d) ∧ (Debugger.ticks t d).isRunning = false := by
  obtain ⟨used, idle⟩ := (h.ticks clear).ends stops
  obtain ⟨rest, rfl⟩ := Nat.exists_eq_add_of_le (Nat.succ_le_of_lt enough)
  have settled : Debugger.ticks (k + 1 + rest) d = after Debugger.tick (Debugger.ticks k d) := by
    rw [ticks_add]
    exact ticks_of_idle idle rest
  rw [settled]
  exact ⟨used, idle⟩

end Going

/-- Whatever a debugger was used for, no tick steps where there is a breakpoint, every other tick of
a run takes one step, and so a run ends with the machine after the least number of steps that leads
to a stop. -/
theorem run_stops_at_breakpoint (used : Used words s d) :
    (d.atBreakpoint = true → d.machine.Looked (after tick d).machine) ∧
    (d.isRunning = true → d.machine.isRunning = true → d.atBreakpoint = false →
      (after tick d).machine = (Machine.step.after d.machine).takeConsole.2) ∧
    ∀ k, (∀ j < k, (s.afterSteps j).stopsAt d.breakpoints = false) →
      (s.afterSteps k).stopsAt d.breakpoints = true →
      ∀ t > k, (ticks t (after run d)).isRunning = false ∧
        Follows (s.afterSteps k) (ticks t (after run d)) := by
  refine ⟨looked_tick, fun going running clear => ?_, fun k clear stops t enough => ?_⟩
  · exact machine_tick used (by simp [stepsNext, going, running, clear])
  · obtain ⟨used, idle⟩ := (Going.run used).stopped clear stops enough
    exact ⟨idle, used.follows⟩

/-- A program of two instructions that do nothing, and a third that halts. -/
def pausingProgram : List Word :=
  [Instruction.encode ⟨.nop, 0, []⟩, Instruction.encode ⟨.nop, 0, []⟩,
    Instruction.encode ⟨.halt, 0, []⟩]

/-- The debugger on it, with a breakpoint at the second instruction, at the start. -/
def pausingDebugger : Debugger :=
  after reset (after toggleBreakpoint (after step (start pausingProgram)))

theorem pausingDebugger_used : Used pausingProgram (.startOn pausingProgram) pausingDebugger :=
  .reset (.toggle (.step .start))

/-- The first tick of a run takes the one step to the breakpoint, and the second finds it. -/
theorem run_stops_at_breakpoint_pausingDebugger :
    let d := after run pausingDebugger
    let s := Machine.startOn pausingProgram
    Used pausingProgram s d ∧ d.atBreakpoint = false ∧
      (after tick d).machine = (Machine.step.after d.machine).takeConsole.2 ∧
      (after tick d).atBreakpoint = true ∧
      (after tick d).machine.Looked (ticks 2 d).machine ∧
      (∀ j < 1, (s.afterSteps j).stopsAt d.breakpoints = false) ∧
      (s.afterSteps 1).stopsAt d.breakpoints = true ∧
      (ticks 2 d).isRunning = false ∧ Follows (s.afterSteps 1) (ticks 2 d) := by
  have used : Used pausingProgram (.startOn pausingProgram) (after run pausingDebugger) :=
    pausingDebugger_used.run
  have moves : (after run pausingDebugger).atBreakpoint = false := by decide +kernel
  have stands : (after tick (after run pausingDebugger)).atBreakpoint = true := by decide +kernel
  have clear : ∀ j < 1, ((Machine.startOn pausingProgram).afterSteps j).stopsAt
      pausingDebugger.breakpoints = false := by decide +kernel
  have stops : ((Machine.startOn pausingProgram).afterSteps 1).stopsAt
      pausingDebugger.breakpoints = true := by decide +kernel
  exact ⟨used, moves, (run_stops_at_breakpoint used).2.1 rfl (by decide +kernel) moves, stands,
    (run_stops_at_breakpoint used.tick).1 stands, clear, stops,
    (run_stops_at_breakpoint used).2.2 1 clear stops 2 (by decide)⟩

end WordMachine.Debugger
