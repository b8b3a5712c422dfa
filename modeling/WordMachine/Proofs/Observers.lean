import WordMachine.Debugger.Screen
import WordMachine.Proofs.Looking
import WordMachine.Proofs.PrintedBefore

/-!
# Observers of a debugger

An `Observer` asks a debugger something: where execution stands, what the
registers hold, the whole screen.  Each of them leaves the debugger as it was,
except that the machine is `mapped` then (`Observer.look_eq`).

A debugger may be observed anywhere between its steps.  `Interleaved` counts the
steps only, and collects the bytes that they take from the console.  A step of
the machine by itself takes none (`singleStep`).  After a number of such steps
the machine is as if nothing had been asked (`looked_of_singleSteps`).
-/

namespace WordMachine.Debugger

variable {ε α β : Type} {d d₀ : Debugger} {n : Nat} {bytes : List UInt8}

/-! ## Operations -/

/-- The debugger after an operation. -/
def after (x : Operation α) (d : Debugger) : Debugger := (x d).2

theorem after_bind (x : Operation α) (f : α → Operation β) (d : Debugger) :
    after (x >>= f) d = after (f (x d).1) (after x d) := rfl

/-- The debugger with the segment table of its machine read, if it can be. -/
def mapped (d : Debugger) : Debugger := { d with machine := d.machine.mapped }

theorem mapped_mapped (d : Debugger) : d.mapped.mapped = d.mapped := by
  simp only [mapped, Machine.mapped_mapped]

theorem after_onMachine (x : Action ε α) (d : Debugger) :
    after (onMachine x) d = { d with machine := x.after d.machine } := by
  unfold after onMachine Action.after
  cases x d.machine <;> rfl

theorem after_look (x : Action Empty α) (d : Debugger) :
    after (look x) d = { d with machine := x.after d.machine } := by
  unfold after look Action.after
  cases x d.machine with
  | ok a m => rfl
  | error e m => exact e.elim

/-- Looking up the next instruction answers what the machine answers. -/
theorem currentAddress_eq (d : Debugger) : currentAddress d =
    ((Machine.nextInstructionAddress.outcome d.machine).toOption, d.mapped) := by
  have looked := Machine.nextInstructionAddress_looks.after d.machine
  show ((onMachine Machine.nextInstructionAddress d).1.toOption,
    (onMachine Machine.nextInstructionAddress d).2) = _
  simp only [onMachine, mapped, Action.outcome, ← looked, Action.after]
  cases Machine.nextInstructionAddress d.machine <;> rfl

theorem after_currentAddress (d : Debugger) : after currentAddress d = d.mapped :=
  congrArg Prod.snd (currentAddress_eq d)

/-! ## Observers -/

/-- What can be asked of a debugger. -/
inductive Observer where
  /-- The address of the next instruction. -/
  | currentAddress
  /-- The address of the top of the stack. -/
  | stackTop
  /-- The values of the general registers. -/
  | registers
  /-- A number of lines of the disassembly. -/
  | listing (count : Nat)
  /-- The screen. -/
  | screen (width height : Nat)
  /-- The full report. -/
  | dump

/-- The debugger after it was asked. -/
def Observer.look : Observer → Debugger → Debugger
  | .currentAddress => after Debugger.currentAddress
  | .stackTop => after (onMachine Machine.stackTopAddress)
  | .registers => after Debugger.registers
  | .listing count => after (Debugger.listing count)
  | .screen width height => after (Debugger.screen width height)
  | .dump => after (Debugger.look Machine.dump)

theorem after_registers (d : Debugger) : after registers d = d.mapped := by
  unfold registers
  rw [after_look, Machine.registers_looks.after]
  rfl

theorem after_listing (count : Nat) (d : Debugger) : after (listing count) d = d.mapped := by
  rw [← after_currentAddress]
  refine (after_bind _ _ d).trans ?_
  cases (currentAddress d).1 <;> rfl

theorem after_screen (width height : Nat) (d : Debugger) :
    after (screen width height) d = d.mapped := by
  have registers : after registerRows (after (disassemblyRows (height - 18)) d) = d.mapped := by
    have lists : after (disassemblyRows (height - 18)) d = d.mapped := after_listing _ d
    have reads : after registerRows d.mapped = d.mapped.mapped := after_registers d.mapped
    rw [lists, reads, mapped_mapped]
  exact registers

/-- Whoever looks, the debugger then has its segment table read, and that is all. -/
theorem Observer.look_eq (o : Observer) (d : Debugger) : o.look d = d.mapped := by
  cases o with
  | currentAddress => exact after_currentAddress d
  | stackTop =>
    refine (after_onMachine _ d).trans ?_
    rw [Machine.stackTopAddress_looks.after]
    rfl
  | registers => exact after_registers d
  | listing count => exact after_listing count d
  | screen width height => exact after_screen width height d
  | dump =>
    refine (after_look _ d).trans ?_
    rw [Machine.dump_looks.after]
    rfl

/-! ## Steps with observers between them -/

/-- What a number of steps lead to, with observers anywhere between them.  A step says which bytes
it takes from the console, and these are collected. -/
inductive Interleaved (step : Operation (List UInt8)) (d₀ : Debugger) :
    Nat → List UInt8 → Debugger → Prop
  | start : Interleaved step d₀ 0 [] d₀
  | step {n : Nat} {bytes : List UInt8} {d : Debugger} (before : Interleaved step d₀ n bytes d) :
    Interleaved step d₀ (n + 1) (bytes ++ (step d).1) (step d).2
  | look {n : Nat} {bytes : List UInt8} {d : Debugger} (o : Observer)
    (before : Interleaved step d₀ n bytes d) : Interleaved step d₀ n bytes (o.look d)

/-- A step of the machine by itself.  What it prints stays on the console. -/
def singleStep : Operation (List UInt8) := do
  let _ ← onMachine Machine.step
  return []

/-- Whoever looks between the steps, the debugger stays as it is, and its machine is the one after as
many steps without observers. -/
theorem looked_of_singleSteps (read : d₀.machine.ReadInGuest)
    (steps : Interleaved singleStep d₀ n bytes d) :
    bytes = [] ∧ d = { d₀ with machine := d.machine } ∧
      (d₀.machine.afterSteps n).Looked d.machine := by
  induction steps with
  | start => exact ⟨rfl, rfl, .inl rfl⟩
  | @step n bytes d before ih =>
    obtain ⟨rfl, rest, looked⟩ := ih
    have stepped : (singleStep d).2 = { d with machine := Machine.step.after d.machine } :=
      after_onMachine Machine.step d
    rw [stepped]
    refine ⟨rfl, ?_, looked.step (Machine.afterSteps_readInGuest read n)⟩
    rw [rest]
  | look o before ih =>
    obtain ⟨rfl, rest, looked⟩ := ih
    rw [o.look_eq]
    refine ⟨rfl, ?_, looked.look⟩
    rw [rest]
    rfl

end WordMachine.Debugger
