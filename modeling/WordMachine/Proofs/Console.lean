import WordMachine.Proofs.Pervasive
import WordMachine.Proofs.Switch

/-!
# What a step prints

A step prints at most one byte, `printed?`, and it is the host that prints it.
What the console holds after a step is what it held before and that byte
(`console_step`).

The bytes need not stay in a buffer.  They may go to a sink that can refuse one,
and `stepTo` is a step of a machine that prints to a sink.  A byte that is refused
ends the instruction where it would have been printed.
-/

namespace WordMachine.Machine

variable {m m' : Machine} {i : ResolvedInstruction}

/-! ## The printed byte -/

/-- Whether the next step executes an instruction, and not in a guest. -/
def executesInHost (m : Machine) : Bool :=
  m.isRunning && !m.processor.inGuest && !m.timerFires

/-- The byte that the next step prints, if it does. -/
def printed? (m : Machine) : Option UInt8 :=
  if m.executesInHost then
    match (prepare m.processor.ip).outcome m.begun with
    | .ok i => if i.opcode = .print then some i.first.toUInt8 else none
    | .error _ => none
  else none

theorem printed?_eq_some_iff {byte : UInt8} :
    m.printed? = some byte ↔ m.executesInHost = true ∧
      ∃ i, (prepare m.processor.ip).outcome m.begun = .ok i ∧ i.opcode = .print ∧
        i.first.toUInt8 = byte := by
  unfold printed?
  cases m.executesInHost with
  | false => simp
  | true =>
    cases (prepare m.processor.ip).outcome m.begun with
    | error e => simp
    | ok i => simp

/-- Executing `PRINT` in the host. -/
theorem executeAt_of_print {ip : Word} (prepared : prepare ip m = .ok i m')
    (opcode : i.opcode = .print) (host : m'.processor.inGuest = false) :
    executeAt ip m = .ok () ((m'.emit i.first).goto i.nextIp) := by
  refine (Action.bind_of_ok prepared _).trans ?_
  have performs : perform i m' = .ok .next (m'.emit i.first) := by
    simp only [perform, opcode]
    exact Action.bind_of_ok (hostOnly_of_host host _ _ _) _
  exact (Action.bind_of_ok performs _).trans rfl

/-- A step that prints. -/
theorem step_of_printed {byte : UInt8} (prints : m.printed? = some byte) :
    step m = .ok true (step.after m) ∧ (step.after m).console = m.console.push byte := by
  obtain ⟨executes, i, prepared, opcode, rfl⟩ := printed?_eq_some_iff.mp prints
  simp only [executesInHost, Bool.and_eq_true, Bool.not_eq_true'] at executes
  obtain ⟨⟨running, host⟩, quiet⟩ := executes
  have ran := Action.eq_ok_of_outcome prepared
  obtain ⟨same, -⟩ := prepare_untouched ran
  have host' : ((prepare m.processor.ip).after m.begun).processor.inGuest = false := by
    rw [same.processor, inGuest_begun, host]
  have stepped := step_of_ok running quiet (executeAt_of_print ran opcode host')
  rw [Action.after_of_ok stepped, stepped]
  refine ⟨congrArg (EStateM.Result.ok · _) ?_, congrArg (Array.push · _) same.console⟩
  show decide (((prepare m.processor.ip).after m.begun).status = .running) = true
  rw [same.status]
  exact running

/-! ## Steps that print nothing -/

/-- Work that prints nothing. -/
def Silent {ε α : Type} (x : Action ε α) : Prop :=
  ∀ console, x.Preserves fun m => m.console = console

theorem Silent.of_ends {ε α : Type} {x : Action ε α}
    (keeps : ∀ m, x.Ends m (fun _ m' => m'.console = m.console)
      (fun _ m' => m'.console = m.console)) : Silent x := by
  rintro _ m rfl
  exact keeps m

theorem pushFrame_silent (number : Word) (words : List Word) :
    Silent (pushFrame number words) := by
  have same {m m₀ m' : Machine} (settles : m.Settles m₀) (change : LocalChange m₀ m') :
      m'.console = m.console :=
    change.console.trans (Untouched.of_settles settles).console
  refine .of_ends fun m => (pushFrame_settles m number words).imp ?_ ?_
  all_goals
    rintro _ m' ⟨m₀, settles, change⟩
    exact same settles change

theorem pervasive_silent (console : Array UInt8) :
    Pervasive fun _ _ x => x.Preserves fun m => m.console = console :=
  preserves_pervasive fun _ _ _ _ _ same => same

theorem raiseInterrupt_silent (number returnIp : Word) (extra : List Word) :
    Silent (raiseInterrupt number returnIp extra) := fun console =>
  (pervasive_silent console).raiseInterrupt (fun n words => pushFrame_silent n words console) _ _ _

theorem deliverFault_silent (ip : Word) (f : Fault) : Silent (deliverFault ip f) := fun console =>
  (pervasive_silent console).deliverFault (fun n words => pushFrame_silent n words console) _ _

theorem performResume_silent (i : ResolvedInstruction) : Silent (performResume i) :=
  fun console => (pervasive_silent console).performResume i

/-- Executing an instruction prints nothing, unless it is `PRINT` in the host. -/
theorem executeAt_silent (m : Machine) (ip : Word) (quiet : m.processor.inGuest = false →
      ∀ i, (prepare ip).outcome m = .ok i → i.opcode ≠ .print) :
    (executeAt ip).Ends m (fun _ m' => m'.console = m.console)
      (fun _ m' => m'.console = m.console) := by
  obtain ⟨-, e, -, failed⟩ | ⟨m₀, settles, settled, prepares, same⟩ := executeAt_settle m ip
  · exact .of_error failed rfl
  have begins := Untouched.of_settles settles
  unfold Action.Ends
  rw [same]
  refine Action.Ends.imp (executeAt_ends settled ip) ?_ ?_
  · rintro _ _ ⟨i, m₁, m₂, ip', prepared, change, effect, rfl⟩
    have before := change.console.trans begins.console
    cases effect with
    | none | halt | interrupts => exact before
    | control r => cases r <;> exact before
    | resume o m₂ opcode host resumed =>
      have after : m₂.console = m.console := (performResume_silent i _ m₁ before).ok resumed
      exact after
    | print opcode host =>
      have host' : m.processor.inGuest = false := by
        rw [← settles.processor, ← change.inGuest, host]
      have outcome : (prepare ip).outcome m = .ok i := by
        unfold Action.outcome at prepared ⊢
        rwa [prepares]
      exact absurd opcode (quiet host' i outcome)
  · rintro e m' (⟨change, -⟩ | ⟨i, m₁, -, -, -, change, failed⟩)
    · exact change.console.trans begins.console
    · have before := change.console.trans begins.console
      exact (performResume_silent i _ m₁ before).error failed

/-- A step adds what it prints to the console, and nothing else. -/
theorem console_step (m : Machine) :
    (step.after m).console.toList = m.console.toList ++ m.printed?.toList := by
  cases prints : m.printed? with
  | some byte => simp [(step_of_printed prints).2]
  | none =>
    simp only [Option.toList_none, List.append_nil]
    congr 1
    -- A fatal error of the step stops the machine but prints nothing.
    have concludes {x : Action FatalError Unit} (silent : Silent x) (m₁ : Machine)
        (before : m₁.console = m.console) : ((conclude x).after m₁).console = m.console :=
      after_conclude (R := fun m' => m'.console = m.console) (silent _ m₁ before) fun _ h => h
    have executes (running : m.isRunning = true) (fires : m.timerFires = false) :=
      executeAt_silent m.begun m.processor.ip fun host i prepared opcode => by
        rw [inGuest_begun] at host
        simp [printed?, executesInHost, running, host, fires, prepared, opcode] at prints
    cases step_cases m with
    | idle stopped eq => rw [Action.after_of_ok eq]
    | timer running fires eq =>
      rw [Action.after_congr eq]
      exact concludes (raiseInterrupt_silent _ _ _) m.begun rfl
    | ok m' running quiet executed eq =>
      rw [Action.after_of_ok eq]
      exact (executes running quiet).ok executed
    | fatal e m' running quiet executed eq =>
      have same : m'.console = m.console := (executes running quiet).error executed
      rw [Action.after_of_error eq]
      exact same
    | fault f m' running quiet executed eq =>
      rw [Action.after_congr eq]
      exact concludes (deliverFault_silent _ f) m' ((executes running quiet).error executed)

/-! ## Sinks -/

/-- Where printed bytes go.  A sink may refuse a byte, with a text that says why. -/
abbrev Sink := UInt8 → Except String Unit

/-- A buffer takes every byte. -/
def Sink.buffer : Sink := fun _ => .ok ()

/-- Takes a step of a machine that prints to a sink. -/
def stepTo (sink : Sink) : Action FatalError Bool := fun m =>
  match m.printed?.map sink with
  | some (.error text) =>
    .error (.console text) { (prepare m.processor.ip).after m.begun with status := .error }
  | _ => step m

theorem stepTo_cases (sink : Sink) (m : Machine) :
    stepTo sink m = step m ∨
      ∃ byte text, m.printed? = some byte ∧ sink byte = .error text ∧
        stepTo sink m =
          .error (.console text) { (prepare m.processor.ip).after m.begun with status := .error } := by
  unfold stepTo
  cases prints : m.printed? with
  | none => exact .inl rfl
  | some byte =>
    cases refused : sink byte with
    | ok u => exact .inl (by simp [refused])
    | error text => exact .inr ⟨byte, text, rfl, refused, by simp [refused]⟩

/-- A machine that prints to a buffer takes its steps as if nothing could refuse a byte. -/
theorem stepTo_buffer : stepTo .buffer = step := by
  funext m
  obtain same | ⟨byte, text, -, refused, -⟩ := stepTo_cases .buffer m
  · exact same
  · cases refused

end WordMachine.Machine
