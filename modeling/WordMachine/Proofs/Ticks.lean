import WordMachine.Proofs.Observers

/-!
# Ticks of a debugger

A step of a debugger looks up the instruction first, and takes what the machine
printed from the console afterwards (`Stepped`).  A tick takes a step if a run is
on, the machine is running and there is no breakpoint in the way (`stepsNext`),
and otherwise it ends the run or does nothing.

What was taken from the console is not lost, since a step adds it to the output
as text.  So a debugger that steps still `Follows` the machine that takes steps
by itself.  For a debugger that only ticks, `Ticked` is the invariant, with all
the bytes that the ticks have `collected` so far, and `ticked_of_ticks` is its
run.
-/

namespace WordMachine.Debugger

variable {d d' d₀ : Debugger} {s : Machine} {n : Nat} {bytes : List UInt8}

/-! ## Steps -/

/-- What a step of the debugger does once the machine has taken its step. -/
def conclude (ip : Word) (text : String) (r : Except FatalError Bool) : Operation Unit := do
  match r with
  | .ok _ => say s!"IP={Text.prefixedHex8 ip.toNat}: {text}"
  | .error e => stop s!"Error: {e.message}"
  collectOutput

/-- The text that the debugger shows for the next instruction. -/
def shown (d : Debugger) : String :=
  (Machine.nextInstructionAddress.outcome d.machine).toOption.elim unknownText fun a =>
    (d.machine.memory.line a).text

theorem after_step_eq (running : d.machine.isRunning = true) :
    after step d =
      after (conclude d.machine.processor.ip d.shown (Machine.step.outcome d.machine.mapped))
        { d with machine := Machine.step.after d.machine.mapped } := by
  have stepped : onMachine Machine.step d.mapped = (Machine.step.outcome d.machine.mapped,
      { d with machine := Machine.step.after d.machine.mapped }) := by
    simp only [onMachine, mapped, Action.outcome, Action.after]
    cases Machine.step d.machine.mapped <;> rfl
  have shows : (textAt (currentAddress d).1 (currentAddress d).2).1 = d.shown := by
    have same : d.mapped.machine.memory = d.machine.memory := d.machine.memory_mapped
    rw [currentAddress_eq, shown, ← same]
    rfl
  have starts : step d = (do
      let r ← onMachine Machine.step
      conclude d.machine.processor.ip d.shown r) d.mapped := by
    rw [← shows, ← after_currentAddress]
    show (if d.machine.isRunning then _ else _ : Operation Unit) d = _
    rw [if_pos running]
    rfl
  refine (congrArg Prod.snd starts).trans ((after_bind _ _ _).trans ?_)
  unfold after
  rw [stepped]

/-- What a step of a debugger comes to. -/
structure Stepped (d d' : Debugger) : Prop where
  machine : d'.machine = (Machine.step.after d.machine.mapped).takeConsole.2
  output : d'.output =
    d.output ++ Text.Utf8.decode (Machine.step.after d.machine.mapped).console.toList
  breakpoints : d'.breakpoints = d.breakpoints
  /-- It ends a run only if the machine met an error. -/
  ended (ends : d'.isRunning = false) :
    d.isRunning = false ∨ (Machine.step.after d.machine.mapped).isRunning = false

theorem stepped_step (running : d.machine.isRunning = true) : Stepped d (after step d) := by
  rw [after_step_eq running]
  cases stepped : Machine.step.outcome d.machine.mapped with
  | ok going => exact ⟨rfl, rfl, rfl, .inl⟩
  | error e =>
    have failed := Action.eq_error_of_outcome stepped
    exact ⟨rfl, rfl, rfl, fun _ => .inr (Machine.isRunning_of_step_error failed)⟩

/-! ## Ticks -/

/-- Whether there is a breakpoint at the next instruction. -/
def atBreakpoint (d : Debugger) : Bool :=
  (Machine.nextInstructionAddress.outcome d.machine).toOption.any d.breakpoints.contains

/-- Whether the next tick takes a step. -/
def stepsNext (d : Debugger) : Bool := d.isRunning && d.machine.isRunning && !d.atBreakpoint

/-- The bytes that the next tick takes from the console. -/
def collected (d : Debugger) : List UInt8 :=
  if d.stepsNext then (Machine.step.after d.machine.mapped).console.toList else []

theorem after_tick_of_idle (idle : d.isRunning = false) : after tick d = d := by
  show ((if d.isRunning then _ else pure () : Operation Unit) d).2 = d
  rw [idle]
  rfl

theorem after_tick_of_stopped (going : d.isRunning = true) (stopped : d.machine.isRunning = false) :
    ∃ status, after tick d = { d with isRunning := false, status } := by
  refine ⟨s!"Stopped after {d.machine.cycles.toNat} cycles", ?_⟩
  show ((if d.isRunning then if d.machine.isRunning then _ else _ else _ : Operation Unit) d).2 = _
  rw [going, stopped]
  rfl

theorem after_tick_of_running (going : d.isRunning = true) (running : d.machine.isRunning = true) :
    ∃ status, after tick d =
      if d.atBreakpoint then { d.mapped with isRunning := false, status }
      else after step d.mapped := by
  have found := congrArg Prod.fst (currentAddress_eq d)
  have starts : tick d = (currentAddress >>= fun found => found.elim step fun address =>
      if d.breakpoints.contains address then
        stop s!"Breakpoint at {Text.prefixedHex8 address.toNat}"
      else step) d := by
    show (if d.isRunning then if d.machine.isRunning then _ else _ else _ : Operation Unit) d = _
    rw [going, running, if_pos rfl, if_pos rfl]
    refine congrFun (congrArg (currentAddress >>= ·) (funext fun found => ?_)) d
    cases found <;> rfl
  have looks := (congrArg Prod.snd starts).trans (after_bind currentAddress _ d)
  rw [after_currentAddress, found] at looks
  unfold atBreakpoint
  cases place : (Machine.nextInstructionAddress.outcome d.machine).toOption with
  | none =>
    rw [place] at looks
    exact ⟨"", looks⟩
  | some address =>
    rw [place] at looks
    refine ⟨s!"Breakpoint at {Text.prefixedHex8 address.toNat}", looks.trans ?_⟩
    simp only [Option.any_some, Option.elim_some]
    split <;> rfl

/-- A tick that takes a step takes the step of a debugger. -/
theorem stepped_tick (steps : d.stepsNext = true) : Stepped d (after tick d) := by
  simp only [stepsNext, Bool.and_eq_true, Bool.not_eq_true'] at steps
  obtain ⟨⟨going, running⟩, clear⟩ := steps
  obtain ⟨status, eq⟩ := after_tick_of_running going running
  rw [eq, clear, if_neg Bool.false_ne_true]
  obtain ⟨machine, output, breakpoints, ended⟩ :=
    stepped_step (d := d.mapped) ((Machine.isRunning_mapped d.machine).trans running)
  simp only [mapped, Machine.mapped_mapped] at machine output ended
  exact ⟨machine, output, breakpoints, ended⟩

/-- A tick that takes no step looks at most. -/
theorem rests_tick (rests : d.stepsNext = false) :
    (after tick d).output = d.output ∧ (after tick d).breakpoints = d.breakpoints ∧
      d.machine.Looked (after tick d).machine := by
  cases going : d.isRunning with
  | false =>
    rw [after_tick_of_idle going]
    exact ⟨rfl, rfl, .inl rfl⟩
  | true =>
    cases running : d.machine.isRunning with
    | false =>
      obtain ⟨status, eq⟩ := after_tick_of_stopped going running
      rw [eq]
      exact ⟨rfl, rfl, .inl rfl⟩
    | true =>
      obtain ⟨status, eq⟩ := after_tick_of_running going running
      have stops : d.atBreakpoint = true := by simpa [stepsNext, going, running] using rests
      rw [eq, stops, if_pos rfl]
      exact ⟨rfl, rfl, .inr rfl⟩

/-! ## Following a machine -/

/-- A debugger whose machine is `s`, but that what was printed has been taken from the console. -/
structure Follows (s : Machine) (d : Debugger) : Prop where
  machine : s.takeConsole.2.Looked d.machine
  /-- Each byte was read as text by itself. -/
  output : d.output = String.join (s.console.toList.map fun b => Text.Utf8.decode [b])

namespace Follows

theorem isRunning (h : Follows s d) : d.machine.isRunning = s.isRunning := h.machine.isRunning

theorem rests (h : Follows s d) (output : d'.output = d.output)
    (looked : d.machine.Looked d'.machine) : Follows s d' :=
  ⟨h.machine.trans looked, output.trans h.output⟩

/-- The machine takes the step that it takes if nobody looked and its console is empty. -/
theorem step_eq (read : s.ReadInGuest) (running : s.isRunning = true) (h : Follows s d) :
    Machine.step.after d.machine.mapped = Machine.step.after s.takeConsole.2 :=
  Action.after_congr (h.machine.look.step_eq read running)

/-- What the step prints comes after what was printed before. -/
theorem console_step (read : s.ReadInGuest) (running : s.isRunning = true) (h : Follows s d) :
    (Machine.step.after s).console.toList =
      s.console.toList ++ (Machine.step.after d.machine.mapped).console.toList := by
  rw [h.step_eq read running, Machine.step_takeConsole]
  exact Array.toList_append

theorem step (read : s.ReadInGuest) (running : s.isRunning = true) (h : Follows s d)
    (stepped : Stepped d d') : Follows (Machine.step.after s) d' where
  machine := by
    rw [stepped.machine, h.step_eq read running, Machine.step_takeConsole s]
    exact .inl rfl
  output := by
    have prints : (Machine.step.after d.machine.mapped).console.toList =
        s.takeConsole.2.printed?.toList := by
      rw [h.step_eq read running]
      exact Machine.console_step s.takeConsole.2
    rw [stepped.output, h.console_step read running, h.output, List.map_append, String.join_append,
      prints]
    cases s.takeConsole.2.printed? with
    | none => rfl
    | some byte => simp [String.join]

end Follows

/-! ## Runs -/

/-- A tick, with the bytes it collects. -/
def collectingTick : Operation (List UInt8) := fun d => (d.collected, after tick d)

/-- A debugger that goes on with a run, where `s` is the machine that took the steps by itself. -/
structure Ticked (s : Machine) (bytes : List UInt8) (d : Debugger) : Prop where
  machine : s.takeConsole.2.Looked d.machine
  console : bytes = s.console.toList
  output : d.output = String.join (bytes.map fun b => Text.Utf8.decode [b])
  breakpoints : d.breakpoints = ∅
  /-- The run goes on until the machine stops. -/
  ended (ends : d.isRunning = false) : s.isRunning = false

theorem Ticked.look (h : Ticked s bytes d) (o : Observer) : Ticked s bytes (o.look d) := by
  rw [o.look_eq]
  exact ⟨h.machine.look, h.console, h.output, h.breakpoints, h.ended⟩

theorem Ticked.isRunning (h : Ticked s bytes d) : d.machine.isRunning = s.isRunning :=
  h.machine.isRunning

theorem Ticked.atBreakpoint (h : Ticked s bytes d) : d.atBreakpoint = false := by
  unfold Debugger.atBreakpoint
  rw [h.breakpoints]
  cases (Machine.nextInstructionAddress.outcome d.machine).toOption with
  | none => rfl
  | some address => exact Std.ExtTreeSet.contains_empty

theorem Ticked.follows (h : Ticked s bytes d) : Follows s d :=
  ⟨h.machine, by rw [h.output, h.console]⟩

theorem Ticked.tick (read : s.ReadInGuest) (h : Ticked s bytes d) :
    Ticked (Machine.step.after s) (bytes ++ d.collected) (after Debugger.tick d) := by
  cases steps : d.stepsNext with
  | true =>
    have stepped := stepped_tick steps
    have collects : d.collected = (Machine.step.after d.machine.mapped).console.toList :=
      if_pos steps
    simp only [stepsNext, Bool.and_eq_true] at steps
    obtain ⟨⟨going, running⟩, -⟩ := steps
    have runs : s.isRunning = true := h.isRunning.symm.trans running
    have follows := h.follows.step read runs stepped
    have console : bytes ++ d.collected = (Machine.step.after s).console.toList := by
      rw [h.follows.console_step read runs, collects, h.console]
    refine ⟨follows.machine, console, by rw [console, follows.output],
      stepped.breakpoints.trans h.breakpoints, fun ends => ?_⟩
    rcases stepped.ended ends with idle | stopped
    · cases going.symm.trans idle
    · rw [h.follows.step_eq read runs] at stopped
      rw [Machine.step_takeConsole s]
      exact stopped
  | false =>
    obtain ⟨output, breakpoints, looked⟩ := rests_tick steps
    have stopped : s.isRunning = false := by
      cases going : d.isRunning with
      | false => exact h.ended going
      | true => simpa [stepsNext, going, h.atBreakpoint, h.isRunning] using steps
    have nothing : d.collected = [] := by simp [collected, steps]
    rw [Action.after_of_ok (Machine.step_of_not_isRunning stopped), nothing, List.append_nil]
    exact ⟨h.machine.trans looked, h.console, output.trans h.output,
      breakpoints.trans h.breakpoints, fun _ => stopped⟩

/-- The machine of a debugger differs from the one that took the steps by itself only in what was
taken from the console, and in the copy of the segment table. -/
theorem Ticked.machine_eq (h : Ticked s bytes d) :
    (Machine.printedBefore bytes.toArray d.machine).withSegments {} = s.withSegments {} := by
  rw [h.console, Array.toArray_toList]
  calc (Machine.printedBefore s.console d.machine).withSegments {}
      = Machine.printedBefore s.console (d.machine.withSegments {}) := rfl
    _ = Machine.printedBefore s.console (s.takeConsole.2.withSegments {}) := by
        rw [h.machine.withSegments_eq]
    _ = (Machine.printedBefore s.console s.takeConsole.2).withSegments {} := rfl
    _ = s.withSegments {} := by rw [Machine.printedBefore_takeConsole]

theorem ticked_of_ticks (read : s.ReadInGuest) (starts : Ticked s [] d₀)
    (ticks : Interleaved collectingTick d₀ n bytes d) : Ticked (s.afterSteps n) bytes d := by
  induction ticks with
  | start => exact starts
  | step before ih => exact ih.tick (Machine.afterSteps_readInGuest read _)
  | look o before ih => exact ih.look o

end WordMachine.Debugger
