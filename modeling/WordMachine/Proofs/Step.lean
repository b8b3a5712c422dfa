import WordMachine.Proofs.Delivery

/-!
# What a step comes to

A step first counts itself and looks at the timer.  On the machine that has
`begun`, it either delivers the timer interrupt (`step_of_timer`) or executes an
instruction (`step_of_not_timer`).  Then `step_of_ok`, `step_of_fatal` and
`step_of_fault` say what the step is, and `step_cases` lists all of these ways.

Two kinds of steps do more than the running program could do by itself.  A step
of the host that executes `VMRESUME` enters a guest (`Resumes`), and a step in a
guest that meets the timer or a fault begins to leave it (`Exits`).  Every other
step in a guest is a local change (`step_of_guest`).
-/

namespace WordMachine.Machine

variable {m m' : Machine} {slot : Word}

/-! ## The start of a step -/

/-- Whether the next step delivers a timer interrupt. -/
def timerFires (m : Machine) : Bool := m.processor.timerPending && m.processor.interruptsEnabled

/-- The machine at the start of a step.  The step is counted, and the timer is silenced if it is
about to be delivered and advanced otherwise. -/
def begun (m : Machine) : Machine :=
  { m with
    cycles := m.cycles + 1
    processor := if m.timerFires then m.processor.clearTimerPending else m.processor.tick }

/-- Starting a step touches only the timer. -/
theorem processor_begun (m : Machine) :
    m.begun.processor =
      { m.processor with
        counter := m.begun.processor.counter, interrupt := m.begun.processor.interrupt } := by
  simp only [begun]
  split
  · rfl
  · unfold Processor.tick
    split
    · simp only
      split <;> rfl
    · rfl

theorem reaches_begun (m : Machine) (space : AddressSpace) (a : Word) :
    m.begun.reaches space a = m.reaches space a := by
  have processor := processor_begun m
  unfold reaches segment? keptSegments
  rw [processor]
  cases space <;> rfl

theorem writable_begun (m : Machine) (a : Word) : m.begun.Writable a ↔ m.Writable a := by
  simp only [Writable, reaches_begun]

theorem settled_begun (m : Machine) : m.begun.Settled ↔ m.Settled := by
  have processor := processor_begun m
  unfold Settled
  rw [processor]
  rfl

theorem sameMode_begun (m : Machine) : m.SameMode m.begun := by
  constructor <;> rw [processor_begun]

/-- The mode stays as far as a step comes by reading the segment table and by local changes. -/
theorem SameMode.of_begun {m₀ m₁ : Machine} (settles : m.begun.Settles m₀)
    (change : LocalChange m₀ m₁) : SameMode m m₁ :=
  (m.sameMode_begun.trans settles.sameMode).trans change.sameMode

theorem inGuest_begun (m : Machine) : m.begun.processor.inGuest = m.processor.inGuest :=
  m.sameMode_begun.inGuest

theorem guest_begun (m : Machine) : m.begun.processor.guest = m.processor.guest :=
  m.sameMode_begun.guest

theorem inRow_begun (m : Machine) (slot a : Word) : m.begun.InRow slot a ↔ m.InRow slot a := by
  unfold InRow rowStart
  rw [processor_begun]

/-! ## Steps -/

/-- Whether the next step executes `VMRESUME` in the host. -/
def Resumes (m : Machine) : Prop :=
  m.isRunning = true ∧ m.processor.inGuest = false ∧ m.timerFires = false ∧
    ∃ i, (prepare m.processor.ip).outcome m.begun = .ok i ∧ i.opcode = .vmResume

/-- Whether the next step begins to leave the running guest. -/
def Exits (m : Machine) : Prop :=
  m.isRunning = true ∧ m.processor.inGuest = true ∧
    (m.timerFires = true ∨ ∃ f, (executeAt m.processor.ip).outcome m.begun = .error (.fault f))

/-- The end of a step.  A fatal error stops the machine. -/
def conclude (x : Action FatalError Unit) : Action FatalError Bool := fun m =>
  match x m with
  | .ok () m => .ok m.isRunning m
  | .error e m => .error e { m with status := .error }

theorem conclude_ends {x : Action FatalError Unit} {Q : Unit → Machine → Prop}
    {E : FatalError → Machine → Prop} (ends : x.Ends m Q E) :
    (conclude x).Ends m (fun running m' => running = m'.isRunning ∧ Q () m')
      (fun e m' => ∃ m₁, E e m₁ ∧ m' = { m₁ with status := .error }) := by
  unfold conclude
  cases ran : x m with
  | ok u m' => exact .of_ok (by simp only [ran]) ⟨rfl, ends.ok ran⟩
  | error e m' => exact .of_error (by simp only [ran]) ⟨m', ends.error ran, rfl⟩

theorem after_conclude {x : Action FatalError Unit} {R : Machine → Prop}
    (ends : x.Ends m (fun _ => R) (fun _ => R))
    (stopped : ∀ m', R m' → R { m' with status := .error }) : R ((conclude x).after m) := by
  refine Action.Ends.after ((conclude_ends ends).imp (fun _ m' h => h.2) ?_)
  rintro e _ ⟨m', holds, rfl⟩
  exact stopped m' holds

theorem conclude_congr {x y : Action FatalError Unit} (h : x m = y m') :
    conclude x m = conclude y m' := by
  simp only [conclude, h]

theorem step_of_running (running : m.isRunning = true) :
    step m = conclude cycle { m with cycles := m.cycles + 1 } := by
  unfold step conclude
  refine (if_pos running).trans ?_
  cases cycle { m with cycles := m.cycles + 1 } <;> rfl

theorem step_of_timer (running : m.isRunning = true) (fires : m.timerFires = true) :
    step m = conclude (raiseInterrupt Interrupt.timer m.processor.ip []) m.begun := by
  have starts : cycle { m with cycles := m.cycles + 1 } =
      raiseInterrupt Interrupt.timer m.processor.ip [] m.begun := by
    show (if m.timerFires then _ else _ : Action FatalError Unit) _ = _
    rw [if_pos fires]
    simp only [begun, if_pos fires]
    rfl
  rw [step_of_running running, conclude_congr starts]

/-- Executes the instruction at an offset and delivers its fault, if it has one. -/
def executeAndDeliver (ip : Word) : Action FatalError Unit := do
  match ← (executeAt ip).attempt with
  | .ok () => return
  | .error (.fatal e) => throw e
  | .error (.fault f) => deliverFault ip f

theorem step_of_not_timer (running : m.isRunning = true) (quiet : m.timerFires = false) :
    step m = conclude (executeAndDeliver m.processor.ip) m.begun := by
  have starts : cycle { m with cycles := m.cycles + 1 } =
      executeAndDeliver m.processor.ip m.begun := by
    show (if m.timerFires then _ else _ : Action FatalError Unit) _ = _
    rw [if_neg (by simp [quiet])]
    simp only [begun, quiet]
    rfl
  rw [step_of_running running, conclude_congr starts]

theorem executeAndDeliver_eq (ip : Word) (m : Machine) :
    executeAndDeliver ip m =
      match executeAt ip m with
      | .ok () m' => .ok () m'
      | .error (.fatal e) m' => .error e m'
      | .error (.fault f) m' => deliverFault ip f m' := by
  refine (Action.bind_of_ok (Action.attempt_apply _ _) _).trans ?_
  simp only [Action.outcome, Action.after]
  cases executeAt ip m with
  | ok u m' => rfl
  | error e m' => cases e <;> rfl

theorem step_of_ok (running : m.isRunning = true) (quiet : m.timerFires = false)
    (h : executeAt m.processor.ip m.begun = .ok () m') : step m = .ok m'.isRunning m' := by
  rw [step_of_not_timer running quiet]
  simp only [conclude, executeAndDeliver_eq, h]

theorem step_of_fatal (running : m.isRunning = true) (quiet : m.timerFires = false)
    {e : FatalError} (h : executeAt m.processor.ip m.begun = .error (.fatal e) m') :
    step m = .error e { m' with status := .error } := by
  rw [step_of_not_timer running quiet]
  simp only [conclude, executeAndDeliver_eq, h]

theorem step_of_fault (running : m.isRunning = true) (quiet : m.timerFires = false) {f : Fault}
    (h : executeAt m.processor.ip m.begun = .error (.fault f) m') :
    step m = conclude (deliverFault m.processor.ip f) m' := by
  rw [step_of_not_timer running quiet]
  simp only [conclude, executeAndDeliver_eq, h]

/-- How a step comes to its end. -/
inductive Stepped (m : Machine) : Prop
  /-- The machine had stopped. -/
  | idle (stopped : m.isRunning = false) (eq : step m = .ok false m)
  /-- The timer comes first. -/
  | timer (running : m.isRunning = true) (fires : m.timerFires = true)
      (eq : step m = conclude (raiseInterrupt Interrupt.timer m.processor.ip []) m.begun)
  | ok (m' : Machine) (running : m.isRunning = true) (quiet : m.timerFires = false)
      (executed : executeAt m.processor.ip m.begun = .ok () m') (eq : step m = .ok m'.isRunning m')
  | fatal (e : FatalError) (m' : Machine) (running : m.isRunning = true)
      (quiet : m.timerFires = false)
      (executed : executeAt m.processor.ip m.begun = .error (.fatal e) m')
      (eq : step m = .error e { m' with status := .error })
  /-- The fault is delivered where the instruction broke off. -/
  | fault (f : Fault) (m' : Machine) (running : m.isRunning = true) (quiet : m.timerFires = false)
      (executed : executeAt m.processor.ip m.begun = .error (.fault f) m')
      (eq : step m = conclude (deliverFault m.processor.ip f) m')

theorem step_cases (m : Machine) : Stepped m := by
  cases running : m.isRunning with
  | false => exact .idle running (step_of_not_isRunning running)
  | true =>
    cases fires : m.timerFires with
    | true => exact .timer running fires (step_of_timer running fires)
    | false =>
      cases executed : executeAt m.processor.ip m.begun with
      | ok u m' => exact .ok m' running fires executed (step_of_ok running fires executed)
      | error e m' =>
        cases e with
        | fatal e =>
          exact .fatal e m' running fires executed (step_of_fatal running fires executed)
        | fault f =>
          exact .fault f m' running fires executed (step_of_fault running fires executed)

/-! ## Steps in a guest -/

/-- In a guest an instruction is a local change or fails with a fault. -/
theorem executeAt_ends_of_guest (settled : m.Settled) (guest : m.processor.inGuest = true)
    (ip : Word) :
    (executeAt ip).Ends m (fun _ m' => LocalChange m m')
      (fun e m' => LocalChange m m' ∧ e.IsFault) := by
  refine (executeAt_ends settled ip).imp ?_ ?_
  · rintro _ m' ⟨i, m₁, m₂, ip', -, change, effect, rfl⟩
    have inside : m₁.processor.inGuest = true := change.inGuest.trans guest
    cases effect
    case none => exact change.trans (.goto m₁ ip')
    all_goals simp_all
  · rintro e m' (h | ⟨i, m₁, -, -, host, -⟩)
    · exact h
    · rw [guest] at host
      cases host

/-- What a step in a guest comes to. -/
inductive GuestStep (m : Machine) : Prop
  /-- The segment table cannot be read. -/
  | unreadable (e : FatalError) (unsettled : ¬m.Settled)
      (eq : step m = .error e { m.begun with status := .error })
  /-- The guest goes on. -/
  | stays (m₀ m' : Machine) (settles : m.begun.Settles m₀) (change : LocalChange m₀ m')
      (eq : step m = .ok true m')
  /-- The guest is to be left. -/
  | exits (m₀ m₁ : Machine) (number : Word) (reason : TrapReason) (resumeIp : Word)
      (extra : List Word) (exits : m.Exits) (settles : m.begun.Settles m₀)
      (change : LocalChange m₀ m₁)
      (eq : step m = conclude (leaveFor number reason resumeIp extra) m₁)

theorem step_of_guest (running : m.isRunning = true) (guest : m.processor.guest = some slot) :
    m.GuestStep := by
  have inGuest := Processor.inGuest_of_guest guest
  cases fires : m.timerFires with
  | true =>
    have eq := step_of_timer running fires
    have leaves := raiseInterrupt_of_guest ((guest_begun m).trans guest)
      (show Interrupt.timer ≤ Interrupt.last by decide) m.processor.ip []
    exact .exits m.begun m.begun _ _ _ _ ⟨running, inGuest, .inl fires⟩ .refl (.refl _)
      (eq.trans (conclude_congr leaves))
  | false =>
    -- The segment table is read here at the latest, so the rest is about a settled machine.
    obtain ⟨unsettled, e, -, failed⟩ | ⟨m₀, settles, settled, -, same⟩ :=
      executeAt_settle m.begun m.processor.ip
    · exact .unreadable e (mt (settled_begun m).mpr unsettled) (step_of_fatal running fires failed)
    have guest₀ : m₀.processor.guest = some slot := by
      rw [settles.processor, guest_begun, guest]
    have ends := executeAt_ends_of_guest settled (Processor.inGuest_of_guest guest₀)
      m.processor.ip
    cases executed : executeAt m.processor.ip m₀ with
    | ok u m' =>
      have change := ends.ok executed
      have stillRunning : m'.isRunning = true := by
        rw [isRunning, change.status, settles.status]
        exact running
      have eq := step_of_ok running fires (same.trans executed)
      rw [stillRunning] at eq
      exact .stays m₀ m' settles change eq
    | error e m₁ =>
      obtain ⟨change, f, rfl⟩ := ends.error executed
      have guest₁ : m₁.processor.guest = some slot := change.guest.trans guest₀
      -- Every fault of a guest leaves it; the handlers are those of the host.
      obtain ⟨number, reason, resumeIp, extra, leaves⟩ :=
        deliverFault_of_guest guest₁ m.processor.ip f
      have exits : m.Exits := by
        refine ⟨running, inGuest, .inr ⟨f, ?_⟩⟩
        simp only [Action.outcome, same.trans executed]
      have eq := step_of_fault running fires (same.trans executed)
      exact .exits m₀ m₁ number reason resumeIp extra exits settles change
        (eq.trans (conclude_congr leaves))

/-! ## Runs -/

/-- The machine after a number of steps. -/
def afterSteps : Nat → Machine → Machine
  | 0, m => m
  | n + 1, m => step.after (afterSteps n m)

/-- The first step can be taken by itself. -/
theorem afterSteps_step (n : Nat) (m : Machine) :
    afterSteps n (step.after m) = afterSteps (n + 1) m := by
  induction n with
  | zero => rfl
  | succ n ih => exact congrArg step.after ih

theorem afterSteps_of_not_isRunning (stopped : m.isRunning = false) (n : Nat) :
    afterSteps n m = m := by
  induction n with
  | zero => rfl
  | succ n ih =>
    show step.after (afterSteps n m) = m
    rw [ih, Action.after_of_ok (step_of_not_isRunning stopped)]

theorem afterSteps_add (k n : Nat) (m : Machine) :
    afterSteps (k + n) m = afterSteps n (afterSteps k m) := by
  induction n with
  | zero => rfl
  | succ n ih => exact congrArg step.after ih

/-- Further steps of a machine that has stopped do nothing. -/
theorem afterSteps_of_le {k n : Nat} (stopped : (m.afterSteps k).isRunning = false) (le : k ≤ n) :
    m.afterSteps n = m.afterSteps k := by
  obtain ⟨rest, rfl⟩ := Nat.exists_eq_add_of_le le
  rw [afterSteps_add, afterSteps_of_not_isRunning stopped]

/-- A machine stops in one place only. -/
theorem afterSteps_eq_of_stopped {k n : Nat} (stopped : (m.afterSteps k).isRunning = false)
    (stopped' : (m.afterSteps n).isRunning = false) : m.afterSteps k = m.afterSteps n := by
  rcases Nat.le_total k n with le | le
  · exact (afterSteps_of_le stopped le).symm
  · exact afterSteps_of_le stopped' le

/-- A step says whether the machine is still running. -/
theorem isRunning_of_step {going : Bool} (stepped : step m = .ok going m') :
    m'.isRunning = going := by
  unfold step at stepped
  split at stepped
  · split at stepped
    · injection stepped with going same
      rw [← same, going]
    · cases stepped
  next stopped =>
    injection stepped with going same
    rw [← same, ← going]
    simpa using stopped

/-- A step that fails stops the machine. -/
theorem isRunning_of_step_error {e : FatalError} (failed : step m = .error e m') :
    m'.isRunning = false := by
  unfold step at failed
  split at failed
  · split at failed
    · cases failed
    · injection failed with _ same
      rw [← same]
      rfl
  · cases failed

/-! ## Sample machines -/

/-- A segment for each purpose. -/
def sampleSegments : List Segment :=
  [⟨0, 0xFF, .code, 0, by decide⟩, ⟨0x100, 0x1FF, .data, 0, by decide⟩,
    ⟨0x200, 0x2FF, .stack, 0, by decide⟩, ⟨0x300, 0x31E, .register, 0, by decide⟩]

theorem lt_of_covers_sampleSegments {selector : Word} {kind : SegmentKind} {a : Word}
    (h : Covers sampleSegments selector kind a) : a.toNat < 0x400 := by
  obtain ⟨s, selected, -, covers⟩ := h
  have below : ∀ s ∈ sampleSegments, s.limit.toNat < 0x400 := by decide
  have limit := below s (List.mem_of_getElem? selected)
  simp only [Segment.contains, decide_eq_true_eq] at covers
  omega

theorem index_lt_fields (r : ControlRegister) : r.index < 32 := Nat.lt_trans r.index_lt (by decide)

/-- The operand that is a control register. -/
def controlOperand (r : ControlRegister) : OperandDescriptor := ⟨.control, r.index, index_lt_fields r⟩

/-- A host that is about to push a word. -/
def pushingHost : Machine where
  processor := { cs := 0, ds := 1, es := 1, ss := 2, rs := 3, sp := 0x300, segmentTable := 0x400 }
  segments := ⟨some sampleSegments⟩
  memory := Memory.empty.place 0 [Instruction.encode ⟨.push, 0, [⟨.immediate, Fin.last 31⟩]⟩, 7]

/-- A host and a guest that share the segments. -/
def sampleContexts : List Context :=
  [{ cs := 0, ds := 1, es := 1, ss := 2, rs := 3, sp := 0x300 },
    { cs := 0, ds := 1, es := 1, ss := 2, rs := 3, sp := 0x280 }]

/-- A guest that does nothing and then tries to halt. -/
def sampleGuest : Machine where
  processor :=
    { cs := 0, ds := 1, es := 1, ss := 2, rs := 3, sp := 0x280
      segmentTable := 0x400, guestTable := 0x500, inGuest := true, slot := 1 }
  segments := ⟨some sampleSegments⟩
  guests := ⟨some sampleContexts⟩
  memory :=
    (Memory.empty.place 0 [Instruction.encode ⟨.nop, 0, []⟩, Instruction.encode ⟨.halt, 0, []⟩]).place
      0x500 (sampleContexts.flatMap (·.toRow.toList))

end WordMachine.Machine
