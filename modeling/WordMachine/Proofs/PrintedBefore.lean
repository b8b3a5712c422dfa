import WordMachine.Proofs.Aside
import WordMachine.Proofs.Console

/-!
# What was printed before

A machine does not read what it printed.  So a step comes to the same, and prints
the same, whether the bytes that were printed before it are still on the console
or were taken from it (`step_takeConsole`).
-/

namespace WordMachine.Machine

variable {bytes : Array UInt8}

theorem segmentRows_printedBefore : segmentRows.Commutes (printedBefore bytes) := by
  intro m
  have same : (printedBefore bytes m).processor.isSegmented = m.processor.isSegmented := rfl
  unfold segmentRows
  by_cases segmented : m.processor.isSegmented = true
  · rw [if_pos (same.trans segmented), if_pos segmented]
    simp only [printedBefore, aside, id]
    cases m.segments.rows fun _ => m.memory.segmentTable m.processor.segmentTable <;> rfl
  · rw [if_neg (same ▸ segmented), if_neg segmented]
    rfl

/-- Switching takes no notice of what was printed before. -/
theorem pervasive_printedBefore (bytes : Array UInt8) :
    Pervasive fun _ _ x => x.Commutes (printedBefore bytes) := pervasive_aside

theorem translate_printedBefore (space : AddressSpace) (offset : Word) :
    (translate space offset).Commutes (printedBefore bytes) :=
  (pervasive_printedBefore bytes).translate segmentRows_printedBefore space offset

theorem cycle_printedBefore : cycle.Commutes (printedBefore bytes) := by
  have work := pervasive_printedBefore bytes
  have changes (c : Change) :
      Action.Commutes (fun m => .ok () (c.apply m) : Action Exception Unit)
        (printedBefore bytes) := by
    refine .update fun m => ?_
    cases c with
    | print v => simp [Change.apply, emit, printedBefore, aside]
    | _ => rfl
  have parts := work.compositional segmentRows_printedBefore (fun _ _ => rfl) changes
  refine work.cycle parts (fun r v => ?_) (fun _ => .update fun _ => rfl) .attempt
  exact .update (u := (·.setControl r v)) fun m => by cases r <;> rfl

/-- A step takes no notice of what was printed before. -/
theorem step_printedBefore : step.Commutes (printedBefore bytes) := by
  intro m
  have same : (printedBefore bytes m).isRunning = m.isRunning := rfl
  have ran : cycle { printedBefore bytes m with cycles := (printedBefore bytes m).cycles + 1 } =
      Action.changed (printedBefore bytes) (cycle { m with cycles := m.cycles + 1 }) :=
    cycle_printedBefore { m with cycles := m.cycles + 1 }
  unfold step
  rw [same, ran]
  split
  · cases cycle { m with cycles := m.cycles + 1 } <;> rfl
  · rfl

/-- The bytes taken from the console, put back. -/
theorem printedBefore_takeConsole (m : Machine) :
    printedBefore m.console m.takeConsole.2 = m := by
  simp [printedBefore, aside, takeConsole]

/-- A step can as well be taken with the console empty. -/
theorem step_takeConsole (m : Machine) :
    step.after m = printedBefore m.console (step.after m.takeConsole.2) := by
  rw [← step_printedBefore.after, printedBefore_takeConsole]

end WordMachine.Machine
