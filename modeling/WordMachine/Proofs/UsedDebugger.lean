import WordMachine.Proofs.Ticks

/-!
# Debuggers in use

Whoever uses a debugger takes steps, runs and ticks, sets breakpoints, looks, and
starts over, in any order.  `Used` are the debuggers that this leads to, each
with the machine that took the same steps since the last reset by itself.  The
debugger follows that machine (`Used.follows`).

A run has to end where the machine has stopped or stands at a breakpoint
(`stopsAt`).  This does not depend on what the debugger looked at or collected
(`Follows.stops`).
-/

namespace WordMachine

namespace Machine

/-- The machine that starts on an image.  If the image does not fit, its memory is empty. -/
def startOn (words : List Word) : Machine :=
  match initial.load words with
  | .ok m => m
  | .error _ => .initial

theorem startOn_eq (words : List Word) : ∃ memory, startOn words = { initial with memory } := by
  unfold startOn load
  cases initial.memory.writeBlock 0 words with
  | ok memory => exact ⟨memory, rfl⟩
  | error e => exact ⟨_, rfl⟩

theorem startOn_readInGuest (words : List Word) : (startOn words).ReadInGuest := by
  obtain ⟨memory, eq⟩ := startOn_eq words
  rw [eq]
  exact readInGuest_of_host rfl

theorem nextInstructionAddress_mapped (m : Machine) :
    nextInstructionAddress m.mapped = nextInstructionAddress m := by
  show translate .code m.mapped.processor.ip m.mapped = translate .code m.processor.ip m
  rw [processor_mapped]
  exact (translate_mapped m .code _).symm

/-- Whether a run with these breakpoints ends at a machine. -/
def stopsAt (breakpoints : Std.ExtTreeSet Word compare) (s : Machine) : Bool :=
  !s.isRunning || (nextInstructionAddress.outcome s).toOption.any breakpoints.contains

end Machine

namespace Debugger

variable {d : Debugger} {s : Machine} {words : List Word}

/-! ## Operations -/

theorem after_reset (d : Debugger) :
    ∃ status, after reset d =
      { d with machine := .startOn d.image, status, isRunning := false, output := "" } := by
  unfold after reset Machine.startOn
  simp only [modify, modifyGet, MonadStateOf.modifyGet, StateT.modifyGet]
  cases Machine.initial.load d.image <;> exact ⟨_, rfl⟩

theorem start_eq (words : List Word) :
    ∃ status, start words = { machine := .startOn words, image := words, status } := by
  obtain ⟨status, resets⟩ := after_reset { image := words }
  refine ⟨"Ready. Press 's' to step, 'r' to run, 'q' to quit.", ?_⟩
  show ({ after reset { image := words } with
    status := "Ready. Press 's' to step, 'r' to run, 'q' to quit." } : Debugger) = _
  rw [resets]

theorem after_toggleBreakpoint (d : Debugger) :
    ∃ breakpoints status, after toggleBreakpoint d = { d.mapped with breakpoints, status } := by
  rw [toggleBreakpoint, after_bind, after_currentAddress]
  cases (currentAddress d).1 with
  | none => exact ⟨_, _, rfl⟩
  | some address =>
    show ∃ breakpoints status, ((if d.mapped.breakpoints.contains address then _ else _ :
      Operation Unit) d.mapped).2 = { d.mapped with breakpoints, status }
    split <;> exact ⟨_, _, rfl⟩

theorem after_step_of_stopped (stopped : d.machine.isRunning = false) :
    ∃ status, after step d = { d with isRunning := false, status } := by
  refine ⟨s!"CPU stopped: {d.machine.status.name}", ?_⟩
  show ((if d.machine.isRunning then _ else _ : Operation Unit) d).2 = _
  rw [stopped]
  rfl

/-- A step keeps the image. -/
theorem image_step (d : Debugger) : (after step d).image = d.image := by
  cases running : d.machine.isRunning with
  | false =>
    obtain ⟨status, eq⟩ := after_step_of_stopped running
    rw [eq]
  | true =>
    rw [after_step_eq running]
    cases Machine.step.outcome d.machine.mapped <;> rfl

/-- A tick keeps the image. -/
theorem image_tick (d : Debugger) : (after tick d).image = d.image := by
  cases going : d.isRunning with
  | false => rw [after_tick_of_idle going]
  | true =>
    cases running : d.machine.isRunning with
    | false =>
      obtain ⟨status, eq⟩ := after_tick_of_stopped going running
      rw [eq]
    | true =>
      obtain ⟨status, eq⟩ := after_tick_of_running going running
      rw [eq]
      split
      · rfl
      · exact image_step d.mapped

/-! ## Use -/

/-- What using a debugger on an image leads to, and the machine that took the same steps since the
last reset by itself. -/
inductive Used (words : List Word) : Machine → Debugger → Prop
  | start : Used words (.startOn words) (start words)
  | reset {s : Machine} {d : Debugger} (before : Used words s d) :
    Used words (.startOn words) (after reset d)
  | step {s : Machine} {d : Debugger} (before : Used words s d) :
    Used words (Machine.step.after s) (after step d)
  | run {s : Machine} {d : Debugger} (before : Used words s d) : Used words s (after run d)
  /-- Not every tick takes a step. -/
  | tick {s : Machine} {d : Debugger} (before : Used words s d) :
    Used words (if d.stepsNext then Machine.step.after s else s) (after tick d)
  | toggle {s : Machine} {d : Debugger} (before : Used words s d) :
    Used words s (after toggleBreakpoint d)
  | look {s : Machine} {d : Debugger} (o : Observer) (before : Used words s d) :
    Used words s (o.look d)

namespace Used

/-- The machine has taken some steps from the image. -/
theorem afterSteps (used : Used words s d) : ∃ n, s = (Machine.startOn words).afterSteps n := by
  induction used with
  | start | reset => exact ⟨0, rfl⟩
  | step before ih =>
    obtain ⟨n, rfl⟩ := ih
    exact ⟨n + 1, rfl⟩
  | run before ih | toggle before ih | look o before ih => exact ih
  | tick before ih =>
    obtain ⟨n, rfl⟩ := ih
    split
    · exact ⟨n + 1, rfl⟩
    · exact ⟨n, rfl⟩

theorem readInGuest (used : Used words s d) : s.ReadInGuest := by
  obtain ⟨n, rfl⟩ := used.afterSteps
  exact Machine.afterSteps_readInGuest (Machine.startOn_readInGuest words) n

theorem image (used : Used words s d) : d.image = words := by
  induction used with
  | start =>
    obtain ⟨status, eq⟩ := start_eq words
    rw [eq]
  | @reset s d before ih =>
    obtain ⟨status, eq⟩ := after_reset d
    rw [eq]
    exact ih
  | @step s d before ih => exact (image_step d).trans ih
  | run before ih => exact ih
  | @tick s d before ih => exact (image_tick d).trans ih
  | @toggle s d before ih =>
    obtain ⟨breakpoints, status, eq⟩ := after_toggleBreakpoint d
    rw [eq]
    exact ih
  | look o before ih =>
    rw [o.look_eq]
    exact ih

end Used

/-- A debugger that starts over follows the machine that starts on the image. -/
theorem Follows.startOn (words : List Word) (machine : d.machine = .startOn words)
    (output : d.output = "") : Follows (.startOn words) d := by
  obtain ⟨memory, eq⟩ := Machine.startOn_eq words
  refine ⟨.inl ?_, ?_⟩
  · rw [machine, eq]
    rfl
  · rw [output, eq]
    rfl

/-- A debugger in use follows the machine that takes the steps by itself. -/
theorem Used.follows (used : Used words s d) : Follows s d := by
  induction used with
  | start =>
    obtain ⟨status, eq⟩ := start_eq words
    exact .startOn words (by rw [eq]) (by rw [eq])
  | @reset s d before ih =>
    obtain ⟨status, eq⟩ := after_reset d
    exact .startOn words (by rw [eq, before.image]) (by rw [eq])
  | @step s d before ih =>
    cases running : s.isRunning with
    | true => exact ih.step before.readInGuest running (stepped_step (ih.isRunning.trans running))
    | false =>
      obtain ⟨status, eq⟩ := after_step_of_stopped (ih.isRunning.trans running)
      rw [Action.after_of_ok (Machine.step_of_not_isRunning running), eq]
      exact ih.rests rfl (.inl rfl)
  | run before ih => exact ih.rests rfl (.inl rfl)
  | @tick s d before ih =>
    cases steps : d.stepsNext with
    | true =>
      have running : d.machine.isRunning = true := by simp_all [stepsNext]
      exact ih.step before.readInGuest (ih.isRunning.symm.trans running) (stepped_tick steps)
    | false =>
      obtain ⟨output, -, looked⟩ := rests_tick steps
      exact ih.rests output looked
  | @toggle s d before ih =>
    obtain ⟨breakpoints, status, eq⟩ := after_toggleBreakpoint d
    rw [eq]
    exact ih.rests rfl (.inr rfl)
  | look o before ih =>
    rw [o.look_eq]
    exact ih.rests rfl (.inr rfl)

/-! ## Where a run ends -/

theorem Follows.atBreakpoint (h : Follows s d) :
    d.atBreakpoint =
      (Machine.nextInstructionAddress.outcome s).toOption.any d.breakpoints.contains := by
  -- Neither a look nor the console makes a difference to where execution stands.
  have console : Machine.nextInstructionAddress.outcome s.takeConsole.2 =
      Machine.nextInstructionAddress.outcome s := by
    conv_rhs => rw [← Machine.printedBefore_takeConsole s]
    exact (Action.Commutes.outcome (Machine.translate_printedBefore .code s.processor.ip) _).symm
  have looked : Machine.nextInstructionAddress.outcome d.machine =
      Machine.nextInstructionAddress.outcome s.takeConsole.2 := by
    rcases h.machine with same | same
    · rw [same]
    · simp only [Action.outcome, same, Machine.nextInstructionAddress_mapped]
  unfold Debugger.atBreakpoint
  rw [looked, console]

theorem Follows.stops (h : Follows s d) :
    (!d.machine.isRunning || d.atBreakpoint) = s.stopsAt d.breakpoints := by
  unfold Machine.stopsAt
  rw [h.isRunning, h.atBreakpoint]

end Debugger

end WordMachine
