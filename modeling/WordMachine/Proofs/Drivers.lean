import WordMachine.Proofs.BoundedRuns
import WordMachine.Proofs.NextInstruction
import WordMachine.Proofs.UsedDebugger

/-!
# Drivers

There are several ways to let a machine take steps: one by one, with a limit, from
the command line with a trace or without, in a session, and by ticks of a
debugger.  All of them lead to the machine that `afterSteps` describes, apart
from the copy of the segment table (`drivers_agree`).
-/

namespace WordMachine

/-! ## Loading and running -/

namespace Machine

variable {m s : Machine} {words : List Word}

theorem load_of_fits (fits : words.length ≤ Word.count) :
    ∃ memory, initial.load words = .ok { initial with memory } := by
  unfold load
  by_cases nothing : words = []
  · exact ⟨.empty, by rw [nothing]; rfl⟩
  · have narrow : (0 : UInt64).toNat + words.length < UInt64.size := by
      simp only [Word.count, UInt64.size] at *
      simp
      omega
    have fits : (0 : UInt64).toNat + words.length ≤ Word.count := by simpa using fits
    rw [Memory.writeBlock_eq nothing narrow, if_pos fits]
    exact ⟨_, rfl⟩

/-- A limited run takes as many steps as the limit and the counter of steps leave room for. -/
theorem after_runLimited_min (limit : Nat) (m : Machine) :
    (runLimited limit).after m = afterSteps (min limit (lastCycle - m.cycles.toNat)) m := by
  have below : m.cycles.toNat ≤ lastCycle := Nat.le_of_lt_succ m.cycles.toNat_lt
  have steps : m.boundFor limit - m.cycles.toNat = min limit (lastCycle - m.cycles.toNat) := by
    unfold boundFor
    omega
  rw [after_runLimited_eq, after_runTo (boundFor_le limit m), steps]

theorem after_runLimited (fresh : m.cycles = 0) {limit : Nat} (small : limit ≤ lastCycle) :
    (runLimited limit).after m = afterSteps limit m := by
  have all : min limit (lastCycle - m.cycles.toNat) = limit := by
    rw [fresh]
    exact Nat.min_eq_left small
  rw [after_runLimited_min, all]

end Machine

/-! ## The command line -/

namespace CommandLine

variable {m s : Machine}

/-- A run goes on with a step, after a look if it is traced. -/
theorem runSteps_of_running (running : m.isRunning = true) (looked : s.Looked m) (trace : Bool)
    (limit : Nat) (lines : Array String) :
    ∃ m' lines', s.Looked m' ∧ runSteps trace (limit + 1) m lines =
      match Machine.step m' with
      | .ok _ m => runSteps trace limit m lines'
      | .error e m =>
        let place := Text.prefixedHex8 m.processor.ip.toNat
        ⟨m, lines'.push s!"Error: CPU stopped at IP={place}: {e.message}", true⟩ := by
  cases trace with
  | false =>
    refine ⟨m, lines, looked, ?_⟩
    rw [runSteps, running]
    rfl
  | true =>
    refine ⟨m.mapped, lines.push (traceText m), looked.look, ?_⟩
    exact runSteps_traced running limit lines

theorem looked_runSteps (read : s.ReadInGuest) (looked : s.Looked m) (trace : Bool) (limit : Nat)
    (lines : Array String) :
    (s.afterSteps limit).Looked (runSteps trace limit m lines).machine := by
  induction limit generalizing s m lines with
  | zero => exact looked
  | succ limit ih =>
    rw [← Machine.afterSteps_step]
    cases running : m.isRunning with
    | false =>
      have stopped : s.isRunning = false := looked.isRunning.symm.trans running
      rw [Action.after_of_ok (Machine.step_of_not_isRunning stopped),
        Machine.afterSteps_of_not_isRunning stopped, runSteps, running]
      exact looked
    | true =>
      have going : s.isRunning = true := looked.isRunning.symm.trans running
      obtain ⟨m', lines', looked', eq⟩ := runSteps_of_running running looked trace limit lines
      rw [eq, looked'.step_eq read going]
      cases stepped : Machine.step s with
      | ok going s' =>
        have read' := Machine.step_readInGuest read
        rw [Action.after_of_ok stepped] at read' ⊢
        exact ih read' (.inl rfl) lines'
      | error e s' =>
        have stopped := Machine.isRunning_of_step_error stepped
        rw [Action.after_of_error stepped, Machine.afterSteps_of_not_isRunning stopped]
        exact .inl rfl

/-- A program on the command line prints on standard output, before the report. -/
theorem output_run {words : List Word} (some_word : words ≠ [])
    (loads : Machine.initial.load words = .ok s) (read : s.ReadInGuest) (path : String)
    (options : RunOptions) :
    ∃ dump, (Command.execute (.ok (Image.toBytes words)) (.run path options)).output =
        (s.afterSteps options.maxSteps).console.toList ++ dump ∧
      (options.dumpState = false → dump = []) := by
  have found : loadImage path (.ok (Image.toBytes words)) = .ok words := by
    simp only [loadImage, Image.ofFile, Image.ofBytes_toBytes]
    cases words with
    | nil => exact absurd rfl some_word
    | cons word words => rfl
  have looked := looked_runSteps read (.inl rfl) options.trace options.maxSteps #[]
  have console : (runSteps options.trace options.maxSteps s #[]).machine.console =
      (s.afterSteps options.maxSteps).console := by rw [looked.eq]
  simp only [Command.execute, withImage, found, runReport, loads, console]
  refine ⟨_, rfl, fun short => ?_⟩
  rw [short, if_neg Bool.false_ne_true]
  simp [Text.Utf8.encode]

end CommandLine

/-! ## Sessions -/

namespace Session

variable {α β : Type} {m : Machine} {words : List Word}

/-- The session after an operation, whether it failed or not. -/
def after (x : Operation α) (s : Session) : Session :=
  match x s with
  | .ok _ s => s
  | .error _ s => s

theorem after_congr {x y : Operation α} {s s' : Session} (h : x s = y s') :
    after x s = after y s' := by
  simp only [after, h]

theorem after_bind (x : Operation α) (f : α → Operation β) (s : Session) :
    after (x >>= f) s = match x s with
      | .ok a s' => after (f a) s'
      | .error _ s' => s' := by
  show after (EStateM.bind x f) s = _
  unfold after EStateM.bind
  cases x s <;> rfl

theorem load_start (words : List Word) (s : Session) :
    load (Image.toBytes words) s =
      (reset >>= fun _ => pure words.length) { s with image := words } := by
  simp only [load, Image.ofBytes_toBytes]
  rfl

theorem load_eq (loads : Machine.initial.load words = .ok m) (s : Session) :
    load (Image.toBytes words) s = .ok words.length { machine := m, image := words } := by
  have resets : reset { s with image := words } = .ok () { machine := m, image := words } := by
    simp only [reset, loads]
  rw [load_start]
  show EStateM.bind reset _ _ = _
  simp only [EStateM.bind, resets]
  rfl

theorem machine_run (limit : Nat) (s : Session) :
    (after (run limit) s).machine = (Machine.runLimited limit).after s.machine := by
  unfold run
  rw [after_bind]
  unfold onMachine Action.after
  cases Machine.runLimited limit s.machine <;> rfl

end Session

/-! ## The debugger -/

namespace Debugger

variable {m : Machine} {words : List Word}

theorem ticked_start (loads : Machine.initial.load words = .ok m) (silent : m.console = #[]) :
    Ticked m [] (after run (start words)) := by
  obtain ⟨status, starts⟩ := start_eq words
  have machine : Machine.startOn words = m := by
    unfold Machine.startOn
    rw [loads]
  rw [starts, machine]
  refine ⟨.inl ?_, ?_, rfl, rfl, nofun⟩
  · show m = { m with console := #[] }
    rw [← silent]
  · rw [silent]

end Debugger

/-! ## All drivers -/

open Debugger in
/-- The ways to drive the machine `m`, on which `words` were loaded, over `n` steps.  All of them end
with the machine after these steps, apart from the copy of the segment table. -/
structure DriversAgree (words : List Word) (n : Nat) (m : Machine) : Prop where
  limited : (Machine.runLimited n).after m = m.afterSteps n
  commandLine (trace : Bool) (lines : Array String) :
    (CommandLine.runSteps trace n m lines).machine.withSegments {} =
      (m.afterSteps n).withSegments {}
  /-- What the program prints comes first on standard output. -/
  standardOutput (path : String) (options : CommandLine.RunOptions) (limit : options.maxSteps = n) :
    ∃ dump, (CommandLine.Command.execute (.ok (Image.toBytes words)) (.run path options)).output =
        (m.afterSteps n).console.toList ++ dump ∧
      (options.dumpState = false → dump = [])
  session (s : Session) :
    ∃ s', Session.load (Image.toBytes words) s = .ok words.length s' ∧
      (Session.after (Session.run n) s').machine = m.afterSteps n
  /-- Ticks take the bytes from the console, so they are put back to compare. -/
  ticks {bytes : List UInt8} {d : Debugger}
    (ticks : Interleaved collectingTick (after run (start words)) n bytes d) :
    bytes = (m.afterSteps n).console.toList ∧
      d.output = String.join (bytes.map fun b => Text.Utf8.decode [b]) ∧
      (Machine.printedBefore bytes.toArray d.machine).withSegments {} =
        (m.afterSteps n).withSegments {}
  /-- Observers between single steps change nothing else either. -/
  singleSteps {d₀ d : Debugger} {bytes : List UInt8} (starts : d₀.machine = m)
    (steps : Interleaved singleStep d₀ n bytes d) :
    bytes = [] ∧ d = { d₀ with machine := d.machine } ∧
      d.machine.withSegments {} = (m.afterSteps n).withSegments {}

/-- Whichever way a loaded machine is driven, after a number of steps it is the same, has printed the
same, and has only perhaps read its segment table earlier.  Asking a debugger anything between its
steps changes no more than that. -/
theorem drivers_agree {words : List Word} (some_word : words ≠ [])
    (fits : words.length ≤ Word.count) {n : Nat} (few : n < Word.count) :
    ∃ m, Machine.initial.load words = .ok m ∧ DriversAgree words n m := by
  obtain ⟨memory, loads⟩ := Machine.load_of_fits fits
  have small : n ≤ Machine.lastCycle := by
    simp only [Word.count, Machine.lastCycle] at *
    omega
  have read : Machine.ReadInGuest { Machine.initial with memory } :=
    Machine.readInGuest_of_host rfl
  have limited := Machine.after_runLimited (m := { Machine.initial with memory }) rfl small
  refine ⟨_, loads, limited, fun trace lines => ?_, ?_, fun s => ?_, fun ticks => ?_, ?_⟩
  · exact (CommandLine.looked_runSteps read (.inl rfl) trace n lines).withSegments_eq {}
  · rintro path options rfl
    exact CommandLine.output_run some_word loads read path options
  · exact ⟨_, Session.load_eq loads s, (Session.machine_run n _).trans limited⟩
  · have ticked := Debugger.ticked_of_ticks read (Debugger.ticked_start loads rfl) ticks
    exact ⟨ticked.console, ticked.output, ticked.machine_eq⟩
  · intro d₀ d bytes starts steps
    rw [← starts] at read
    obtain ⟨taken, rest, looked⟩ := Debugger.looked_of_singleSteps read steps
    rw [starts] at looked
    exact ⟨taken, rest, looked.withSegments_eq {}⟩

/-- A program that prints two letters. -/
def printingProgram : List Word :=
  [Instruction.encode ⟨.print, 0, [⟨.immediate, Fin.last 31⟩]⟩, 0x6F,
    Instruction.encode ⟨.print, 0, [⟨.immediate, Fin.last 31⟩]⟩, 0x6B]

open Debugger in
/-- Two ticks print them, with the disassembly shown before and the registers read in between. -/
theorem drivers_agree_printingProgram :
    printingProgram ≠ [] ∧ printingProgram.length ≤ Word.count ∧ 2 < Word.count ∧
      ∃ m bytes d, Machine.initial.load printingProgram = .ok m ∧
        Interleaved collectingTick (after run (start printingProgram)) 2 bytes d ∧
        (m.afterSteps 2).console.toList = [0x6F, 0x6B] ∧
        bytes = [0x6F, 0x6B] ∧ d.output = String.ofList ['o', 'k'] := by
  have some_word : printingProgram ≠ [] := by decide
  have fits : printingProgram.length ≤ Word.count := by decide
  have few : 2 < Word.count := by decide
  obtain ⟨m, loads, agree⟩ := drivers_agree some_word fits few
  have placed : Machine.initial.load printingProgram =
      .ok { Machine.initial with memory := Memory.empty.place 0 printingProgram } := by
    unfold Machine.load
    rw [Memory.writeBlock_eq some_word (by decide)]
    rfl
  obtain rfl : { Machine.initial with memory := Memory.empty.place 0 printingProgram } = m :=
    Except.ok.inj (placed.symm.trans loads)
  have console : (Machine.afterSteps 2 { Machine.initial with
      memory := Memory.empty.place 0 printingProgram }).console.toList = [0x6F, 0x6B] := by
    decide +kernel
  have observed : Interleaved collectingTick (after run (start printingProgram)) 2 _ _ :=
    .step (.look .registers (.step (.look (.listing 4) .start)))
  obtain ⟨collected, output, -⟩ := agree.ticks observed
  rw [console] at collected
  refine ⟨some_word, fits, few, _, _, _, loads, observed, console, collected, ?_⟩
  rw [output, collected]
  decide +kernel

end WordMachine
