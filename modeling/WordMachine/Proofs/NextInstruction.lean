import WordMachine.CommandLine.Report
import WordMachine.Proofs.UsedDebugger
import WordMachine.Proofs.Window
import WordMachine.Session

/-!
# The next instruction, as it is shown

A traced run, a session and a debugger all show the instruction that comes next.
The debugger shows the line at its address, with question marks for the words
that memory does not have.  The other two ask for a whole window of three words,
and show `??` where there is none, so for all instructions at the last two
addresses, a HALT of one word among them.  That is the only difference
(`shown_alike_iff`).
-/

namespace WordMachine

namespace Machine

variable {ε : Type}

/-- The text of the next instruction as a traced run and a session show it. -/
def announced (m : Machine) : String :=
  match nextInstructionAddress.outcome m with
  | .error _ => unknownText
  | .ok a =>
    if a.toNat + longestInstruction ≤ Word.count then
      Listing.firstText (m.memory.window a longestInstruction)
    else unknownText

/-- The instruction that comes next can always be shown. -/
theorem nextText_eq (m : Machine) : (nextText : Action ε String) m = .ok m.announced m.mapped := by
  have attempts : (nextInstructionAddress.attempt : Action ε _) m = _ := Action.attempt_apply _ m
  rw [nextInstructionAddress_looks.after] at attempts
  refine (Action.bind_of_ok attempts _).trans ?_
  unfold announced
  cases nextInstructionAddress.outcome m with
  | error e => rfl
  | ok a =>
    have looked : (get : Action ε Machine) m.mapped = .ok m.mapped m.mapped := rfl
    have read : m.mapped.memory.readRange a.toUInt64 longestInstruction = _ :=
      Memory.readRange_eq _ _ (by decide)
    refine (Action.bind_of_ok looked _).trans ?_
    rw [read, memory_mapped]
    dsimp only
    split <;> rfl

/-- The machines of which a run takes its steps, if the next instruction is shown before each of
them. -/
def watched : Nat → Machine → List Machine
  | 0, _ => []
  | n + 1, m => if m.isRunning then m :: watched n (step.after m.mapped) else []

end Machine

/-! ## What the front ends show -/

namespace CommandLine

/-- The line that a traced run prints before a step. -/
def traceText (m : Machine) : String := s!"{Text.hex8 m.processor.ip.toNat}  {m.announced}"

theorem traceLine_eq (m : Machine) : traceLine m = (traceText m, m.mapped) := by
  have shows : (Machine.nextText : Action Empty String) m = _ := m.nextText_eq
  simp only [traceLine, shows, traceText, Machine.processor_mapped]

theorem runSteps_traced {m : Machine} (running : m.isRunning = true) (limit : Nat)
    (lines : Array String) : runSteps true (limit + 1) m lines =
      match Machine.step m.mapped with
      | .ok _ m' => runSteps true limit m' (lines.push (traceText m))
      | .error e m' =>
        let place := Text.prefixedHex8 m'.processor.ip.toNat
        ⟨m', (lines.push (traceText m)).push s!"Error: CPU stopped at IP={place}: {e.message}",
          true⟩ := by
  rw [runSteps, running, traceLine_eq]
  rfl

/-- A traced run prints the line of each machine that it takes a step of, and at the end perhaps the
error that stops it. -/
theorem lines_traced (limit : Nat) (m : Machine) (lines : Array String) :
    ∃ ending, (runSteps true limit m lines).lines.toList =
        lines.toList ++ (m.watched limit).map traceText ++ ending ∧
      ending.length = if (runSteps true limit m lines).failed then 1 else 0 := by
  induction limit generalizing m lines with
  | zero => exact ⟨[], by simp [runSteps, Machine.watched]⟩
  | succ limit ih =>
    cases running : m.isRunning with
    | false => exact ⟨[], by simp [runSteps, Machine.watched, running]⟩
    | true =>
      rw [runSteps_traced running, Machine.watched, if_pos running]
      cases stepped : Machine.step m.mapped with
      | ok going m' =>
        obtain ⟨ending, printed, length⟩ := ih m' (lines.push (traceText m))
        refine ⟨ending, ?_, length⟩
        rw [Action.after_of_ok stepped]
        simpa using printed
      | error e m' =>
        have stopped := Machine.isRunning_of_step_error stepped
        have last : m'.watched limit = [] := by
          cases limit with
          | zero => rfl
          | succ limit => rw [Machine.watched, stopped]; rfl
        rw [Action.after_of_error stepped, last]
        let place := Text.prefixedHex8 m'.processor.ip.toNat
        exact ⟨[s!"Error: CPU stopped at IP={place}: {e.message}"], by simp [place], rfl⟩

end CommandLine

theorem Session.step_eq {s : Session} (running : s.machine.isRunning = true) :
    step s = match Machine.step s.machine.mapped with
      | .ok _ machine => .ok s.machine.announced { s with machine }
      | .error e machine => .error (.fatal e) { s with machine } := by
  have shows : onMachine Machine.nextText s =
      .ok s.machine.announced { s with machine := s.machine.mapped } := by
    simp only [onMachine, Machine.nextText_eq]
  have starts : step s = (onMachine Machine.nextText >>= fun text =>
      onMachine Machine.step >>= fun _ => pure text : Operation String) s := by
    show (if s.machine.isRunning then _ else _ : Operation String) s = _
    rw [running]
    rfl
  rw [starts]
  show EStateM.bind (onMachine Machine.nextText) _ s = _
  simp only [EStateM.bind, shows]
  show EStateM.bind (onMachine Machine.step) _ _ = _
  simp only [EStateM.bind, onMachine]
  cases Machine.step s.machine.mapped <;> rfl

theorem Debugger.status_step {d : Debugger} (running : d.machine.isRunning = true) :
    (after step d).status = match Machine.step.outcome d.machine.mapped with
      | .ok _ => s!"IP={Text.prefixedHex8 d.machine.processor.ip.toNat}: {d.shown}"
      | .error e => s!"Error: {e.message}" := by
  rw [after_step_eq running]
  cases Machine.step.outcome d.machine.mapped <;> rfl

/-- A traced run, a session and a debugger show the same next instruction exactly if there are three
words at its address.  The debugger shows what there is of it, with a question mark for each word
that is missing, and the other two show `??` unless nothing is missing of the window. -/
theorem shown_alike_iff {m : Machine} {a : Word} (running : m.isRunning = true)
    (next : Machine.nextInstructionAddress.outcome m = .ok a) :
    let shown := Listing.firstText (m.memory.window a longestInstruction)
    let announced := if a.toNat + longestInstruction ≤ Word.count then shown else unknownText
    (∀ (limit : Nat) (lines : Array String), ∃ rest,
      (CommandLine.runSteps true (limit + 1) m lines).lines.toList =
        lines.toList ++ s!"{Text.hex8 m.processor.ip.toNat}  {announced}" :: rest) ∧
    (∀ s : Session, s.machine = m → Session.step s = match Machine.step m.mapped with
      | .ok _ machine => .ok announced { s with machine }
      | .error e machine => .error (.fatal e) { s with machine }) ∧
    (∀ d : Debugger, d.machine = m →
      (Debugger.after Debugger.step d).status = match Machine.step.outcome m.mapped with
        | .ok _ => s!"IP={Text.prefixedHex8 m.processor.ip.toNat}: {shown}"
        | .error e => s!"Error: {e.message}") ∧
    (announced = shown ↔ a.toNat + longestInstruction ≤ Word.count) ∧
    shown.toList.count '?' =
      1 + Listing.extraCount (m.memory.get a) - (Word.count - a.toNat) := by
  intro shown announced
  have asked : m.announced = announced := by
    simp only [Machine.announced, next, announced, shown]
  have line : (m.memory.line a).text = shown := m.memory.text_line a
  refine ⟨fun limit lines => ?_, ?_, ?_, ?_, ?_⟩
  · obtain ⟨ending, printed, -⟩ := CommandLine.lines_traced (limit + 1) m lines
    rw [Machine.watched, if_pos running, List.map_cons, CommandLine.traceText, asked] at printed
    exact ⟨_, printed.trans (List.append_assoc ..)⟩
  · rintro s rfl
    rw [Session.step_eq running, asked]
  · rintro d rfl
    have shows : d.shown = shown := by
      simp only [Debugger.shown, next, Except.toOption, Option.elim_some, line]
    rw [Debugger.status_step running, shows]
  · refine ⟨fun same => ?_, fun fits => if_pos fits⟩
    by_contra past
    have unknown : announced = unknownText := if_neg past
    exact (m.memory.line a).text_ne_unknownText (line.trans (same.symm.trans unknown))
  · rw [← line]
    exact m.memory.count_text_line a

/-- A program that writes a HALT to the last cell and jumps there. -/
def lastCellProgram : List Word :=
  [Instruction.encode ⟨.mov, 0, [⟨.singleDs, Fin.last 31⟩, ⟨.immediate, Fin.last 31⟩]⟩,
    0xFFFFFFFF, Instruction.encode ⟨.halt, 0, []⟩,
    Instruction.encode ⟨.jmp, 0, [⟨.immediate, Fin.last 31⟩]⟩, 0xFFFFFFFF]

/-- The machine about to execute the HALT. -/
def atLastCell : Machine := (Machine.startOn lastCellProgram).afterSteps 2

theorem shown_alike_iff_atLastCell :
    atLastCell.isRunning = true ∧
      Machine.nextInstructionAddress.outcome atLastCell = .ok 0xFFFFFFFF ∧
      (∀ s : Session, s.machine = atLastCell → ∃ s', Session.step s = .ok "??" s') ∧
      ∀ d : Debugger, d.machine = atLastCell →
        (Debugger.after Debugger.step d).status = "IP=0xffffffff: HALT" := by
  have running : atLastCell.isRunning = true := by decide +kernel
  have next : Machine.nextInstructionAddress.outcome atLastCell = .ok 0xFFFFFFFF := by
    decide +kernel
  have stepped : Machine.step.outcome atLastCell.mapped = .ok false := by decide +kernel
  have status : s!"IP={Text.prefixedHex8 atLastCell.processor.ip.toNat}: {Listing.firstText
      (atLastCell.memory.window 0xFFFFFFFF longestInstruction)}" = "IP=0xffffffff: HALT" := by
    decide +kernel
  obtain ⟨-, session, debugger, -⟩ := shown_alike_iff running next
  rw [Action.eq_ok_of_outcome stepped] at session
  rw [stepped] at debugger
  exact ⟨running, next, fun s at_end => ⟨_, session s at_end⟩,
    fun d at_end => (debugger d at_end).trans status⟩

/-- The instruction at the last cell is shown by the debugger and by nobody else. -/
theorem last_halt_unknown :
    Machine.nextInstructionAddress.outcome atLastCell = .ok 0xFFFFFFFF ∧
      Listing.firstText (atLastCell.memory.window 0xFFFFFFFF longestInstruction) = "HALT" ∧
      (Debugger.after Debugger.step { machine := atLastCell }).status = "IP=0xffffffff: HALT" ∧
      (∃ s, Session.step { machine := atLastCell } = .ok "??" s) ∧
      (CommandLine.runSteps true 1 atLastCell #[]).lines = #["ffffffff  ??"] := by
  have running : atLastCell.isRunning = true := by decide +kernel
  have stepped : Machine.step.outcome atLastCell.mapped = .ok false := by decide +kernel
  have unknown : atLastCell.announced = "??" := by decide +kernel
  have session := Session.step_eq (s := { machine := atLastCell }) running
  rw [Action.eq_ok_of_outcome stepped] at session
  dsimp only at session
  rw [unknown] at session
  exact ⟨by decide +kernel, by decide +kernel, by decide +kernel, ⟨_, session⟩, by decide +kernel⟩

end WordMachine
