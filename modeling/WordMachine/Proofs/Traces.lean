import WordMachine.Proofs.NextInstruction
import WordMachine.Proofs.Pervasive

/-!
# Traces

A trace shows an instruction before each step, a traced run by a line and a
session by what its step returns.  The machine remembers the instruction that it
decoded last, and so tells which one a step `attempted`: none if the step was
there to deliver a timer interrupt, and otherwise the one that comes next
(`attempted_eq`, `lastInstruction_step`).

But what is shown does not depend on the timer.  A step that delivers a timer
interrupt shows an instruction that it does not attempt, and if the interrupt
returns, the same instruction is shown again.  This is the only way for a trace to
show an instruction too often.  One that is attempted is missing from the trace
only at the last two addresses, where `??` is shown (`traced_iff_attempted`).
-/

namespace WordMachine

namespace Machine

variable {m : Machine} {i : Instruction}

/-! ## The next instruction -/

/-- The instruction at the instruction pointer, if that is mapped and there is one. -/
def nextInstruction (m : Machine) : Option Instruction := do
  let a ← (nextInstructionAddress.outcome m).toOption
  (Instruction.decode (m.memory.get a)).toOption

/-- The instruction that the next step fetches and decodes. -/
def attempted (m : Machine) : Option Instruction :=
  if m.isRunning && !m.timerFires then
    ((fetchInstruction m.processor.ip).outcome m.begun).toOption
  else none

/-- The start of a step makes no difference to what is mapped. -/
theorem toOption_translate_begun (m : Machine) (space : AddressSpace) (offset : Word) :
    ((translate space offset).outcome m.begun).toOption =
      ((translate space offset).outcome m).toOption := by
  have same := sameMapping_ready m space
  have settles : m.ready.Settled ↔ m.mapped.Settled := by
    unfold Settled
    rw [same.segmented, same.segments]
  by_cases settled : m.mapped.Settled
  · have reaches : m.begun.mapped.reaches space offset = m.mapped.reaches space offset :=
      same.reaches offset
    rw [outcome_translate settled, outcome_translate (settles.mpr settled), reaches]
  · -- A table that cannot be read lets neither of them find anything.
    obtain ⟨e, failed⟩ := (settled_mapped_or m).resolve_left settled
    obtain ⟨e', failed'⟩ := (settled_mapped_or m.begun).resolve_left (mt settles.mp settled)
    simp only [Action.outcome, failed, failed', Except.toOption]

/-- What fetching at an offset comes to that is mapped. -/
theorem fetchInstruction_of_translate {ip a : Word} {m' : Machine}
    (found : translate .code ip m = .ok a m') :
    fetchInstruction ip m = match Instruction.decode (m'.memory.get a) with
      | .ok i => .ok i (m'.remember i)
      | .error e => .error (.fault (.invalidInstruction e)) m' := by
  have fetched : fetch ip m = .ok (m'.memory.get a) m' := Action.bind_of_ok found _
  refine (Action.bind_of_ok fetched _).trans ?_
  cases Instruction.decode (m'.memory.get a) <;> rfl

theorem toOption_fetchInstruction (m : Machine) (ip : Word) :
    ((fetchInstruction ip).outcome m).toOption = (do
      let a ← ((translate .code ip).outcome m).toOption
      (Instruction.decode (m.memory.get a)).toOption) := by
  have looks := translate_looks .code ip m
  unfold Action.outcome
  cases found : translate .code ip m with
  | error e m' =>
    have fails : fetchInstruction ip m = .error e m' :=
      Action.bind_of_error (Action.bind_of_error found _) _
    rw [fails]
    rfl
  | ok a m' =>
    obtain rfl := looks.ok found
    rw [fetchInstruction_of_translate found, memory_mapped]
    show _ = (Instruction.decode (m.memory.get a)).toOption
    cases Instruction.decode (m.memory.get a) <;> rfl

/-- A running machine attempts the next instruction unless the timer comes first. -/
theorem attempted_eq (running : m.isRunning = true) :
    m.attempted = if m.timerFires then none else m.nextInstruction := by
  have fetched := toOption_fetchInstruction m.begun m.processor.ip
  rw [toOption_translate_begun] at fetched
  unfold attempted
  rw [running, fetched]
  cases m.timerFires <;> rfl

theorem attempted_mapped (m : Machine) : m.mapped.attempted = m.attempted := by
  cases running : m.isRunning with
  | false => simp [attempted, isRunning_mapped, running]
  | true =>
    have same : m.mapped.nextInstruction = m.nextInstruction := by
      unfold nextInstruction Action.outcome
      rw [nextInstructionAddress_mapped, memory_mapped]
    rw [attempted_eq running, attempted_eq ((isRunning_mapped m).trans running),
      timerFires_mapped, same]

/-! ## The instruction decoded last -/

/-- Whether a certain instruction was decoded last. -/
def Remembers (last : Option Instruction) (m : Machine) : Prop := m.lastInstruction = last

/-- Only fetching changes which instruction was decoded last. -/
theorem remembers_pervasive (last : Option Instruction) :
    Pervasive fun _ _ x => x.Preserves (Remembers last) :=
  preserves_pervasive fun _ _ _ _ _ same => same

theorem segmentRows_remembers (last : Option Instruction) :
    segmentRows.Preserves (Remembers last) :=
  segmentRows_preserves fun _ _ same => same

theorem remembers_compositional (last : Option Instruction) :
    Compositional fun _ x => x.Preserves (Remembers last) :=
  (remembers_pervasive last).compositional (segmentRows_remembers last) (fun _ _ same => same)
    fun c _ same => by cases c <;> exact same

theorem complete_remembers (last : Option Instruction) (ip : Word) (i : Instruction) :
    (complete ip i).Preserves (Remembers last) := by
  refine (remembers_pervasive last).complete (remembers_compositional last)
    (fun r v m same => ?_) ip i
  cases r <;> exact same

theorem raiseInterrupt_remembers (last : Option Instruction) (number returnIp : Word)
    (extra : List Word) : (raiseInterrupt number returnIp extra).Preserves (Remembers last) :=
  (remembers_pervasive last).raiseInterrupt
    ((remembers_pervasive last).pushFrame (remembers_compositional last)) number returnIp extra

theorem deliverFault_remembers (last : Option Instruction) (ip : Word) (f : Fault) :
    (deliverFault ip f).Preserves (Remembers last) :=
  (remembers_pervasive last).deliverFault
    ((remembers_pervasive last).pushFrame (remembers_compositional last)) ip f

/-- Fetching makes the machine remember what it fetched. -/
theorem fetchInstruction_remembers (m : Machine) (ip : Word) :
    (fetchInstruction ip).Ends m (fun i m' => Remembers (some i) m')
      (fun _ m' => Remembers m.lastInstruction m') := by
  have fetches : (fetch ip).Preserves (Remembers m.lastInstruction) :=
    (remembers_compositional _).fetch ip
  refine .bind (fetches m rfl) (fun w m' same => ?_) fun _ _ same => same
  split
  · exact .throw same
  · exact rfl

/-- However an instruction ends, it is the one remembered if it was fetched at all. -/
theorem executeAt_remembers (m : Machine) (ip : Word) :
    Remembers (((fetchInstruction ip).outcome m).toOption.or m.lastInstruction)
      ((executeAt ip).after m) := by
  have fetches := fetchInstruction_remembers m ip
  rw [executeAt_eq_complete]
  unfold Action.outcome
  cases fetched : fetchInstruction ip m with
  | error e m' =>
    rw [Action.after_of_error (Action.bind_of_error fetched _)]
    exact fetches.error fetched
  | ok i m' =>
    have completes := (complete_remembers (some i) ip i).after (fetches.ok fetched)
    have rest := Action.bind_of_ok fetched (complete ip)
    unfold Action.after at *
    rw [rest]
    exact completes

/-- After a step the instruction decoded last is the one that the step attempted, and without one it
is still the same. -/
theorem lastInstruction_step (m : Machine) :
    (step.after m).lastInstruction = m.attempted.or m.lastInstruction := by
  have executes := executeAt_remembers m.begun m.processor.ip
  have attempts (running : m.isRunning = true) (quiet : m.timerFires = false) :
      m.attempted = ((fetchInstruction m.processor.ip).outcome m.begun).toOption := by
    simp [attempted, running, quiet]
  cases step_cases m with
  | idle stopped eq => simp [Action.after_of_ok eq, attempted, stopped]
  | timer running fires eq =>
    have none : m.attempted = none := by simp [attempted, fires]
    rw [Action.after_congr eq, none]
    exact after_conclude (raiseInterrupt_remembers m.lastInstruction _ _ _ m.begun rfl) fun _ h => h
  | ok m' running quiet executed eq =>
    rw [Action.after_of_ok executed] at executes
    rw [Action.after_of_ok eq, attempts running quiet]
    exact executes
  | fatal e m' running quiet executed eq =>
    rw [Action.after_of_error executed] at executes
    rw [Action.after_of_error eq, attempts running quiet]
    exact executes
  | fault f m' running quiet executed eq =>
    rw [Action.after_of_error executed] at executes
    rw [Action.after_congr eq, attempts running quiet]
    exact after_conclude (deliverFault_remembers _ _ f m' executes) fun _ h => h

/-! ## The instruction that is shown -/

/-- The instruction whose text is shown before a step. -/
def announcedInstruction (m : Machine) : Option Instruction := do
  let a ← (nextInstructionAddress.outcome m).toOption
  if a.toNat + longestInstruction ≤ Word.count then
    (Instruction.decode (m.memory.get a)).toOption
  else none

/-- Whether there are three words at the instruction pointer, if that is mapped. -/
def HasWindow (m : Machine) : Prop :=
  ∀ a, nextInstructionAddress.outcome m = .ok a → a.toNat + longestInstruction ≤ Word.count

theorem eq_ok_of_toOption {ε α : Type} {x : Except ε α} {a : α} (h : x.toOption = some a) :
    x = .ok a := by
  cases x with
  | error e => cases h
  | ok b => rw [Option.some.inj h]

theorem nextInstruction_eq_some_iff : m.nextInstruction = some i ↔
    ∃ a, nextInstructionAddress.outcome m = .ok a ∧
      Instruction.decode (m.memory.get a) = .ok i := by
  constructor
  · intro found
    obtain ⟨a, next, decoded⟩ := Option.bind_eq_some_iff.mp found
    exact ⟨a, eq_ok_of_toOption next, eq_ok_of_toOption decoded⟩
  · rintro ⟨a, next, decoded⟩
    refine Option.bind_eq_some_iff.mpr ⟨a, by rw [next]; rfl, ?_⟩
    rw [decoded]
    rfl

theorem announcedInstruction_eq_some_iff : m.announcedInstruction = some i ↔
    ∃ a, nextInstructionAddress.outcome m = .ok a ∧
      a.toNat + longestInstruction ≤ Word.count ∧ Instruction.decode (m.memory.get a) = .ok i := by
  constructor
  · intro shown
    obtain ⟨a, next, shown⟩ := Option.bind_eq_some_iff.mp shown
    obtain ⟨fits, decoded⟩ := Option.ite_none_right_eq_some.mp shown
    exact ⟨a, eq_ok_of_toOption next, fits, eq_ok_of_toOption decoded⟩
  · rintro ⟨a, next, fits, decoded⟩
    refine Option.bind_eq_some_iff.mpr ⟨a, by rw [next]; rfl, ?_⟩
    rw [if_pos fits, decoded]
    rfl

/-- What is shown comes next. -/
theorem nextInstruction_of_announced (shown : m.announcedInstruction = some i) :
    m.nextInstruction = some i := by
  obtain ⟨a, next, -, decoded⟩ := announcedInstruction_eq_some_iff.mp shown
  exact nextInstruction_eq_some_iff.mpr ⟨a, next, decoded⟩

theorem announcedInstruction_eq (fits : m.HasWindow) :
    m.announcedInstruction = m.nextInstruction := by
  refine Option.ext fun i => ⟨nextInstruction_of_announced, fun found => ?_⟩
  obtain ⟨a, next, decoded⟩ := nextInstruction_eq_some_iff.mp found
  exact announcedInstruction_eq_some_iff.mpr ⟨a, next, fits a next, decoded⟩

/-- The text that is shown is that of the instruction. -/
theorem announced_of_instruction (shown : m.announcedInstruction = some i) :
    ∃ words w extra, Listing.Starts words w i extra ∧ m.announced = Listing.firstText words := by
  obtain ⟨a, next, fits, decoded⟩ := announcedInstruction_eq_some_iff.mp shown
  obtain ⟨extra, starts⟩ := Memory.starts_window fits decoded
  refine ⟨_, _, extra, starts, ?_⟩
  simp only [announced, next, if_pos fits]

/-- No other text is that of an instruction. -/
theorem exists_announcedInstruction {words : List Word} {w : Word} {extra : List Word}
    (starts : Listing.Starts words w i extra) (same : m.announced = Listing.firstText words) :
    ∃ j, m.announcedInstruction = some j ∧ i.opcode = j.opcode ∧ i.privilege = j.privilege ∧
      List.Forall₂ OperandDescriptor.Agrees i.operands j.operands := by
  have shown : m.announced = i.text extra := same.trans starts.firstText_eq
  have known : i.text extra ≠ unknownText := by
    rw [← starts.firstText_eq]
    obtain ⟨-, -, rest, rfl⟩ := starts
    exact (Listing.lineAt 0 w _).text_ne_unknownText
  unfold announced at shown
  cases next : nextInstructionAddress.outcome m with
  | error e =>
    rw [next] at shown
    exact absurd shown.symm known
  | ok a =>
    rw [next] at shown
    dsimp only at shown
    by_cases fits : a.toNat + longestInstruction ≤ Word.count
    · rw [if_pos fits] at shown
      cases decoded : Instruction.decode (m.memory.get a) with
      | ok j =>
        obtain ⟨extra', starts'⟩ := Memory.starts_window fits decoded
        rw [starts'.firstText_eq] at shown
        obtain ⟨opcode, privilege, operands, -⟩ := Instruction.agrees_of_text
          (Instruction.obeys_of_decode starts.decodes) (Instruction.obeys_of_decode decoded)
          starts.enough starts'.enough shown.symm
        exact ⟨j, announcedInstruction_eq_some_iff.mpr ⟨a, next, fits, decoded⟩, opcode, privilege,
          operands⟩
      | error e =>
        -- The mark of a word that is no instruction begins no text of one.
        have marked := (m.memory.line a).startsWith_invalidMark_iff.mpr ⟨e, decoded⟩
        rw [m.memory.text_line, shown, String.startsWith_string_iff] at marked
        exact absurd marked (i.text_not_invalidMark extra)
    · rw [if_neg fits] at shown
      exact absurd shown.symm known

/-! ## Steps and runs -/

theorem isRunning_of_mem_watched {n : Nat} {s : Machine} (mem : s ∈ m.watched n) :
    s.isRunning = true := by
  induction n generalizing m with
  | zero => cases mem
  | succ n ih =>
    rw [watched] at mem
    split at mem
    next running =>
      rcases List.mem_cons.mp mem with rfl | later
      · exact running
      · exact ih later
    next => cases mem

/-- What a trace says of the step that a machine takes next. -/
structure Traced (s : Machine) : Prop where
  running : s.isRunning = true
  /-- The step of a session returns the text. -/
  session (x : Session) (machine : x.machine = s) : Session.step x =
    match step s.mapped with
    | .ok _ machine => .ok s.announced { x with machine }
    | .error e machine => .error (.fatal e) { x with machine }
  /-- The text is the disassembly of the instruction that is shown. -/
  text {i : Instruction} (shown : s.announcedInstruction = some i) :
    ∃ words w extra, Listing.Starts words w i extra ∧ s.announced = Listing.firstText words
  last : (step.after s.mapped).lastInstruction = s.attempted.or s.lastInstruction
  /-- Unless a timer interrupt is delivered, a text that is the disassembly of an instruction is
  that of the one attempted. -/
  names {words : List Word} {w : Word} {i : Instruction} {extra : List Word}
    (starts : Listing.Starts words w i extra) (same : s.announced = Listing.firstText words)
    (quiet : s.timerFires = false) :
    ∃ j, s.announcedInstruction = some j ∧ s.attempted = some j ∧
      (step.after s.mapped).lastInstruction = some j ∧ i.opcode = j.opcode ∧
      i.privilege = j.privilege ∧ List.Forall₂ OperandDescriptor.Agrees i.operands j.operands
  /-- A step that delivers a timer interrupt attempts no instruction, whatever is shown. -/
  delivers : s.timerFires = true →
    s.attempted = none ∧ (step.after s.mapped).lastInstruction = s.lastInstruction
  /-- The text of an instruction that is attempted is missing only where memory ends. -/
  missing : s.attempted.isSome = true → s.announcedInstruction = none → ¬s.HasWindow

theorem traced_of_running (running : m.isRunning = true) : m.Traced := by
  have last : (step.after m.mapped).lastInstruction = m.attempted.or m.lastInstruction := by
    have same : m.mapped.lastInstruction = m.lastInstruction := by rw [mapped_eq]
    rw [lastInstruction_step, attempted_mapped, same]
  have attempts := attempted_eq running
  refine ⟨running, ?_, announced_of_instruction, last, fun starts same quiet => ?_,
    fun fires => ?_, fun attempted shown fits => ?_⟩
  · rintro x rfl
    exact Session.step_eq running
  · obtain ⟨j, shown, agrees⟩ := exists_announcedInstruction starts same
    rw [quiet, if_neg Bool.false_ne_true, nextInstruction_of_announced shown] at attempts
    rw [attempts] at last
    exact ⟨j, shown, attempts, last, agrees⟩
  · rw [fires, if_pos rfl] at attempts
    rw [attempts] at last
    exact ⟨attempts, last⟩
  · rw [attempts, ← announcedInstruction_eq fits, shown] at attempted
    split at attempted <;> cases attempted

/-- Over some steps, a trace lists as many instructions as were attempted, and those that are shown
where a timer interrupt is delivered, but not those that are missing. -/
theorem length_announced {steps : List Machine} (running : ∀ s ∈ steps, s.isRunning = true) :
    (steps.filterMap announcedInstruction).length +
        steps.countP (fun s => s.attempted.isSome && s.announcedInstruction.isNone) =
      (steps.filterMap attempted).length +
        steps.countP (fun s => s.timerFires && s.announcedInstruction.isSome) := by
  induction steps with
  | nil => rfl
  | cons s steps ih =>
    obtain ⟨here, later⟩ := List.forall_mem_cons.mp running
    have ih := ih later
    have attempts := attempted_eq here
    rw [List.countP_cons, List.countP_cons]
    cases fires : s.timerFires with
    | true =>
      rw [fires, if_pos rfl] at attempts
      cases shown : s.announcedInstruction <;> simp [attempts, shown] <;> omega
    | false =>
      rw [fires, if_neg Bool.false_ne_true] at attempts
      cases shown : s.announcedInstruction with
      | none => cases next : s.nextInstruction <;> simp [attempts, next, shown] <;> omega
      | some i => simp [attempts, nextInstruction_of_announced shown, shown]; omega

/-- A traced run prints the text of each step it takes, and the error that stops it, and nothing
else.  What each text says is `Traced`.  Altogether a trace lists the instructions that were
attempted, those that were not because a timer interrupt was delivered instead, and leaves out those
at the end of memory.  So where there are three words at each instruction, a trace lists exactly the
instructions attempted, each as often and in order, if and only if no step that shows an instruction
delivers a timer interrupt. -/
theorem traced_iff_attempted (m : Machine) (n : Nat) :
    let steps := m.watched n
    let listed := steps.filterMap announcedInstruction
    let done := steps.filterMap attempted
    (∀ lines, ∃ ending, (CommandLine.runSteps true n m lines).lines.toList =
        lines.toList ++ steps.map (fun s => s!"{Text.hex8 s.processor.ip.toNat}  {s.announced}") ++
          ending ∧
      ending.length = if (CommandLine.runSteps true n m lines).failed then 1 else 0) ∧
    (∀ s ∈ steps, s.Traced) ∧
    (listed.length + steps.countP (fun s => s.attempted.isSome && s.announcedInstruction.isNone) =
      done.length + steps.countP (fun s => s.timerFires && s.announcedInstruction.isSome)) ∧
    ((∀ s ∈ steps, s.HasWindow) →
      (listed = done ↔ ∀ s ∈ steps, s.timerFires = true → s.announcedInstruction = none)) := by
  intro steps listed done
  have traced (s : Machine) (mem : s ∈ steps) : s.Traced :=
    traced_of_running (isRunning_of_mem_watched mem)
  have lengths := length_announced fun s mem => (traced s mem).running
  refine ⟨CommandLine.lines_traced n m, traced, lengths,
    fun fits => ⟨fun same s mem fires => ?_, fun silent => ?_⟩⟩
  · -- Nothing is missing, so by the number of instructions nothing was shown in vain.
    have missing :
        steps.countP (fun s => s.attempted.isSome && s.announcedInstruction.isNone) = 0 := by
      refine List.countP_eq_zero.mpr fun s mem h => ?_
      obtain ⟨attempted, shown⟩ := Bool.and_eq_true_iff.mp h
      exact (traced s mem).missing attempted (Option.isNone_iff_eq_none.mp shown) (fits s mem)
    have same : (steps.filterMap announcedInstruction).length =
        (steps.filterMap attempted).length := congrArg List.length same
    have vain : steps.countP (fun s => s.timerFires && s.announcedInstruction.isSome) = 0 := by
      omega
    simpa [fires] using List.countP_eq_zero.mp vain s mem
  · refine List.filterMap_congr fun s mem => ?_
    rw [attempted_eq (traced s mem).running]
    cases fires : s.timerFires with
    | true => exact silent s mem fires
    | false => exact announcedInstruction_eq (fits s mem)

/-- A program that starts the timer and soon comes to a HALT.  The interrupt is delivered before. -/
def timedProgram : List Word :=
  [Instruction.encode ⟨.mov, 0, [controlOperand .compare, ⟨.immediate, Fin.last 31⟩]⟩, 1,
    Instruction.encode ⟨.mov, 0, [controlOperand .interrupt, ⟨.immediate, Fin.last 31⟩]⟩, 3,
    Instruction.encode ⟨.nop, 0, []⟩, Instruction.encode ⟨.halt, 0, []⟩, 0, 0, 0, 0,
    Instruction.encode ⟨.reti, 0, []⟩]

theorem traced_iff_attempted_timedProgram :
    let steps := (startOn timedProgram).watched 10
    (∀ s ∈ steps, s.HasWindow) ∧ (steps.filterMap announcedInstruction).length = 6 ∧
      (steps.filterMap attempted).length = 5 ∧
      steps.countP (fun s => s.timerFires && s.announcedInstruction.isSome) = 1 ∧
      ¬∀ s ∈ steps, s.timerFires = true → s.announcedInstruction = none := by
  intro steps
  have fits : ∀ s ∈ steps, s.HasWindow := by
    have all : steps.all (fun s => (nextInstructionAddress.outcome s).toOption.all fun a =>
        a.toNat + longestInstruction ≤ Word.count) = true := by decide +kernel
    intro s mem a next
    simpa [next, Except.toOption] using List.all_eq_true.mp all s mem
  have listed : (steps.filterMap announcedInstruction).length = 6 := by decide +kernel
  have missing :
      steps.countP (fun s => s.attempted.isSome && s.announcedInstruction.isNone) = 0 := by
    decide +kernel
  have vain : steps.countP (fun s => s.timerFires && s.announcedInstruction.isSome) = 1 := by
    decide +kernel
  obtain ⟨-, -, lengths, same_iff⟩ := traced_iff_attempted (startOn timedProgram) 10
  have attempts : (steps.filterMap attempted).length = 5 := by
    have lengths : (steps.filterMap announcedInstruction).length + _ =
        (steps.filterMap attempted).length + _ := lengths
    rw [listed, missing, vain] at lengths
    omega
  refine ⟨fits, listed, attempts, vain, fun silent => ?_⟩
  have same : (steps.filterMap announcedInstruction).length =
      (steps.filterMap attempted).length := congrArg List.length ((same_iff fits).mpr silent)
  rw [listed, attempts] at same
  cases same

/-- The fourth step shows the HALT and returns its text, but the machine goes on and has decoded the
NOP last.  A traced run prints the HALT twice. -/
theorem halt_traced_twice :
    let s := (startOn timedProgram).afterSteps 3
    (∃ x, Session.step { machine := s } = .ok "HALT" x) ∧
      Listing.Starts [34] 34 ⟨.halt, 0, []⟩ [] ∧ Listing.firstText [34] = "HALT" ∧
      s.attempted = none ∧ (step.after s).lastInstruction = some ⟨.nop, 0, []⟩ ∧
      (step.after s).isRunning = true ∧
      (CommandLine.runSteps true 10 (startOn timedProgram) #[]).lines =
        #["00000000  MOV COMPARE, 0x1", "00000002  MOV INT, 0x3", "00000004  NOP",
          "00000005  HALT", "0000000a  RETI", "00000005  HALT"] := by
  intro s
  have running : s.isRunning = true := by decide +kernel
  have stepped : step.outcome s.mapped = .ok true := by decide +kernel
  have text : s.announced = "HALT" := by decide +kernel
  have session := Session.step_eq (s := { machine := s }) running
  rw [Action.eq_ok_of_outcome stepped] at session
  dsimp only at session
  rw [text] at session
  refine ⟨⟨_, session⟩, ⟨by decide, by decide, ⟨[], rfl⟩⟩, by decide +kernel, by decide +kernel,
    by decide +kernel, by decide +kernel, by decide +kernel⟩

end Machine

end WordMachine
