import WordMachine.Proofs.FaultAtomicity
import WordMachine.Proofs.SavedContext

/-!
# Steps that switch between host and guest

A step of the host that executes `VMRESUME` enters a guest, or the host stays
(`entered_of_step`), and no other step enters one (`executesResume_of_enters`).
A step in a guest leaves it for one `Exit`, which the timer or a fault of the
instruction determines.  `exit?` computes it, and
`atExit` is the machine on which leaving begins.  `step_of_exit` says that the
step is nothing but leaving that machine, and `exit_of_step` that no guest is
left in another way.
-/

namespace WordMachine

/-! ## Exits -/

/-- What a guest is left for. -/
structure Exit where
  /-- The number of the interrupt that is delivered, for the message of a double fault. -/
  number : Word
  /-- The reason the host finds on its stack. -/
  reason : TrapReason
  /-- The address at which the guest goes on. -/
  resumeIp : Word
  /-- Further words on the stack of the host, the first one deepest. -/
  extra : List Word
deriving DecidableEq, Repr

/-- An interrupt that becomes an exit. -/
def Exit.ofInterrupt (number resumeIp : Word) (extra : List Word) : Exit :=
  ⟨number, .ofInterrupt number, resumeIp, extra⟩

/-- What a guest is left for if its instruction at `ip` ends with a fault. -/
def Fault.exit (ip : Word) : Fault → Exit
  | .segmentViolation kind offset =>
    .ofInterrupt Interrupt.segmentViolation ip [offset, kind.number]
  | .invalidInstruction _ | .invalidGuestSlot _ => .ofInterrupt Interrupt.invalidInstruction ip []
  | .divideByZero => .ofInterrupt Interrupt.divideByZero ip []
  | .privilegeViolation _ _ => .ofInterrupt Interrupt.privilegeViolation ip []
  | .softwareInterrupt number returnIp => .ofInterrupt Interrupt.software returnIp [number]
  | .guestTrap reason resumeIp extra => ⟨Interrupt.guestTrap, reason, resumeIp, extra⟩

namespace Machine

variable {m m' : Machine} {slot : Word} {i : ResolvedInstruction} {e : Exit}

/-- In a guest a fault is delivered by leaving the guest. -/
theorem deliverFault_eq_leaveFor (guest : m.processor.guest = some slot) (ip : Word) (f : Fault) :
    deliverFault ip f m =
      leaveFor (f.exit ip).number (f.exit ip).reason (f.exit ip).resumeIp (f.exit ip).extra m := by
  have delivered {number : Word} (known : number ≤ Interrupt.last) (resumeIp : Word)
      (extra : List Word) :
      raiseInterrupt number resumeIp extra m =
        leaveFor number (.ofInterrupt number) resumeIp extra m :=
    raiseInterrupt_of_guest guest known resumeIp extra
  cases f with
  | segmentViolation kind offset =>
    exact delivered (show Interrupt.segmentViolation ≤ Interrupt.last by decide) ip _
  | invalidInstruction word =>
    exact delivered (show Interrupt.invalidInstruction ≤ Interrupt.last by decide) ip []
  | invalidGuestSlot id =>
    exact delivered (show Interrupt.invalidInstruction ≤ Interrupt.last by decide) ip []
  | divideByZero => exact delivered (show Interrupt.divideByZero ≤ Interrupt.last by decide) ip []
  | privilegeViolation kind word =>
    exact delivered (show Interrupt.privilegeViolation ≤ Interrupt.last by decide) ip []
  | softwareInterrupt number returnIp =>
    exact delivered (show Interrupt.software ≤ Interrupt.last by decide) returnIp [number]
  | guestTrap reason resumeIp extra => rfl

/-- What the next step leaves the running guest for, if it does. -/
def exit? (m : Machine) : Option Exit :=
  if m.timerFires then some (.ofInterrupt Interrupt.timer m.processor.ip [])
  else
    match (executeAt m.processor.ip).outcome m.begun with
    | .error (.fault f) => some (f.exit m.processor.ip)
    | _ => none

/-- The machine on which the next step begins to leave the guest, after the fault if there is one. -/
def atExit (m : Machine) : Machine :=
  if m.timerFires then m.begun else (executeAt m.processor.ip).after m.begun

/-- A guest is left for the timer or for a fault of its instruction. -/
theorem exit?_cases (exits : m.exit? = some e) :
    (m.timerFires = true ∧ e = .ofInterrupt Interrupt.timer m.processor.ip [] ∧
        m.atExit = m.begun) ∨
      m.timerFires = false ∧ ∃ f, e = f.exit m.processor.ip ∧
        executeAt m.processor.ip m.begun = .error (.fault f) m.atExit := by
  unfold exit? at exits
  unfold atExit
  cases fires : m.timerFires with
  | true =>
    simp only [fires, if_true, Option.some.injEq] at exits
    exact .inl ⟨rfl, exits.symm, rfl⟩
  | false =>
    simp only [fires, Bool.false_eq_true, if_false] at exits
    split at exits
    next f faulted =>
      injection exits with exits
      exact .inr ⟨rfl, f, exits.symm, Action.eq_error_of_outcome faulted⟩
    next => cases exits

/-- Up to the exit nothing happens but the start of the step, and perhaps a move of the stack
pointer. -/
theorem untouched_atExit (exits : m.exit? = some e) :
    ∃ sp, Untouched (m.begun.withSp sp) m.atExit := by
  rcases exit?_cases exits with ⟨-, -, same⟩ | ⟨-, f, -, executed⟩
  · rw [same]
    exact ⟨m.begun.processor.sp, .refl _⟩
  · rcases (executeAt_aborts m.processor.ip).error executed ⟨f, rfl⟩ with
      same | ⟨i, frame, -, -, same⟩
    · exact ⟨m.begun.processor.sp, same⟩
    · exact ⟨frame, same⟩

theorem sameMode_atExit (exits : m.exit? = some e) : m.SameMode m.atExit := by
  obtain ⟨sp, same⟩ := untouched_atExit exits
  have moved : m.begun.SameMode (m.begun.withSp sp) := ⟨rfl, rfl⟩
  exact (m.sameMode_begun.trans moved).trans (.of_processor same.processor)

theorem guest_atExit (exits : m.exit? = some e) : m.atExit.processor.guest = m.processor.guest :=
  (sameMode_atExit exits).guest

theorem guestTable_atExit (exits : m.exit? = some e) :
    m.atExit.processor.guestTable = m.processor.guestTable := by
  obtain ⟨sp, same⟩ := untouched_atExit exits
  rw [same.processor]
  show m.begun.processor.guestTable = _
  rw [processor_begun]

theorem memory_atExit (exits : m.exit? = some e) : m.atExit.memory = m.memory := by
  obtain ⟨sp, same⟩ := untouched_atExit exits
  exact same.memory

/-- A step in a guest that meets the timer or a fault leaves the guest. -/
theorem step_of_exit (running : m.isRunning = true) (guest : m.processor.guest = some slot)
    (exits : m.exit? = some e) :
    step m = conclude (leaveFor e.number e.reason e.resumeIp e.extra) m.atExit := by
  have guest' := (guest_atExit exits).trans guest
  rcases exit?_cases exits with ⟨fires, rfl, same⟩ | ⟨quiet, f, rfl, executed⟩
  · rw [same] at guest' ⊢
    rw [step_of_timer running fires]
    exact conclude_congr
      (raiseInterrupt_of_guest guest' (show Interrupt.timer ≤ Interrupt.last by decide) _ _)
  · rw [step_of_fault running quiet executed]
    exact conclude_congr (deliverFault_eq_leaveFor guest' _ f)

/-- Leaving a guest ends in the host, or breaks off in the guest. -/
theorem leaveFor_mode (guest : m.processor.guest = some slot) (number : Word) (reason : TrapReason)
    (resumeIp : Word) (extra : List Word) :
    (leaveFor number reason resumeIp extra).Ends m (fun _ m' => m'.processor.RunsHost)
      (fun _ m' => m'.processor.RunsHost ∨ SameMode m m') := by
  refine leaveFor_ends guest (fun m₁ left => ?_) fun e m' broken => .inr ?_
  · obtain ⟨ip, rows, host, -, -⟩ := left
    have atHost {m₂ m' : Machine}
        (settles : Settles (((m.goto ip).withSaved slot).toHost rows host) m₂)
        (change : LocalChange m₂ m') : m'.processor.RunsHost :=
      (settles.sameMode.trans change.sameMode).runsHost ⟨rfl, rfl⟩
    exact (pushFrame_settles _ number _).imp
      (fun _ m' ⟨m₂, settles, change⟩ => atHost settles change)
      fun _ m' ⟨m₂, settles, change⟩ => .inl (atHost settles change)
  · cases broken <;> exact ⟨rfl, rfl⟩

/-- A step that leaves a guest ends in the host, or stops the machine. -/
theorem leaves_or_stops (guest : m.processor.guest = some slot) {number : Word}
    {reason : TrapReason} {resumeIp : Word} {extra : List Word}
    (eq : step m' = conclude (leaveFor number reason resumeIp extra) m) :
    (step.after m').processor.inGuest = false ∨ (step.after m').isRunning = false := by
  rw [Action.after_congr eq]
  refine Action.Ends.after (R := fun m' => m'.processor.inGuest = false ∨ m'.isRunning = false)
    ((conclude_ends (leaveFor_mode guest number reason resumeIp extra)).imp
      (fun _ _ h => .inl h.2.inGuest) ?_)
  rintro e _ ⟨m', -, rfl⟩
  exact .inr rfl

/-- After a step in a guest the guest goes on, or the host. -/
theorem step_mode_of_guest (inside : m.processor.inGuest = true) :
    SameMode m (step.after m) ∨ (step.after m).processor.RunsHost := by
  have guest := Processor.guest_of_inGuest inside
  cases running : m.isRunning with
  | false =>
    rw [Action.after_of_ok (step_of_not_isRunning running)]
    exact .inl (.refl m)
  | true =>
    cases step_of_guest running guest with
    | unreadable e unsettled eq =>
      rw [Action.after_of_error eq]
      exact .inl ⟨m.sameMode_begun.inGuest, m.sameMode_begun.slot⟩
    | stays m₀ m' settles change eq =>
      rw [Action.after_of_ok eq]
      exact .inl (.of_begun settles change)
    | exits m₀ m₁ number reason resumeIp extra exits settles change eq =>
      have before := SameMode.of_begun settles change
      have leaves := leaveFor_mode (before.guest.trans guest) number reason resumeIp extra
      rw [Action.after_congr eq]
      refine after_conclude (R := fun m' => SameMode m m' ∨ m'.processor.RunsHost)
        (leaves.imp (fun _ _ h => .inr h) fun _ _ h => h.symm.imp before.trans id) ?_
      exact fun _ h => h.imp (fun same => ⟨same.inGuest, same.slot⟩) id

theorem leaveFor_of_step {running : Bool} (isRunning : m.isRunning = true)
    (guest : m.processor.guest = some slot) (exits : m.exit? = some e)
    (stepped : step m = .ok running m') :
    leaveFor e.number e.reason e.resumeIp e.extra m.atExit = .ok () m' := by
  rw [step_of_exit isRunning guest exits] at stepped
  unfold conclude at stepped
  cases ran : leaveFor e.number e.reason e.resumeIp e.extra m.atExit with
  | ok u m₁ =>
    simp only [ran, EStateM.Result.ok.injEq] at stepped
    rw [stepped.2]
  | error x m₁ => simp [ran] at stepped

/-- What makes a step leave the guest is the timer or a fault. -/
theorem exit?_of_exits (exits : m.Exits) : ∃ e, m.exit? = some e := by
  obtain ⟨-, -, cause⟩ := exits
  unfold exit?
  rcases cause with fires | ⟨f, faulted⟩
  · exact ⟨_, if_pos fires⟩
  · split
    · exact ⟨_, rfl⟩
    · exact ⟨f.exit m.processor.ip, by rw [faulted]⟩

/-- A guest is left in no other way, even if the step fails later. -/
theorem exit?_of_left (guest : m.processor.guest = some slot)
    (left : (step.after m).processor.inGuest = false) :
    m.isRunning = true ∧ ∃ e, m.exit? = some e := by
  have inside : m.processor.inGuest = true := Processor.inGuest_of_guest guest
  cases isRunning : m.isRunning with
  | false =>
    rw [Action.after_of_ok (step_of_not_isRunning isRunning), inside] at left
    cases left
  | true =>
    cases step_of_guest isRunning guest with
    | unreadable e unsettled eq =>
      have stays : m.begun.processor.inGuest = false := by
        rwa [Action.after_of_error eq] at left
      rw [inGuest_begun, inside] at stays
      cases stays
    | stays m₀ m₁ settles change eq =>
      rw [Action.after_of_ok eq, (SameMode.of_begun settles change).inGuest, inside] at left
      cases left
    | exits m₀ m₁ number reason resumeIp extra exits => exact ⟨rfl, exit?_of_exits exits⟩

/-- A step that succeeds and after which the guest is left has left it. -/
theorem exit_of_step {running : Bool} (guest : m.processor.guest = some slot)
    (stepped : step m = .ok running m') (left : m'.processor.inGuest = false) :
    ∃ e, m.exit? = some e ∧
      leaveFor e.number e.reason e.resumeIp e.extra m.atExit = .ok () m' := by
  obtain ⟨isRunning, e, exits⟩ := exit?_of_left guest (by rwa [Action.after_of_ok stepped])
  exact ⟨e, exits, leaveFor_of_step isRunning guest exits stepped⟩

/-! ## Steps that execute VMRESUME -/

/-- The instruction that makes the next step one that `Resumes`. -/
structure ExecutesResume (m : Machine) (i : ResolvedInstruction) : Prop where
  running : m.isRunning = true
  host : m.processor.inGuest = false
  /-- The step does not deliver a timer interrupt instead. -/
  quiet : m.timerFires = false
  prepared : (prepare m.processor.ip).outcome m.begun = .ok i
  opcode : i.opcode = .vmResume

/-- Preparing an instruction reads the segment table at most. -/
theorem prepare_untouched {ip : Word} (prepared : prepare ip m = .ok i m') :
    Untouched m m' ∧ m'.guests = m.guests ∧ m'.Settled := by
  obtain ⟨-, e, -, failed⟩ | ⟨m₀, settles, settled, same⟩ := prepare_settle m ip
  · rw [failed] at prepared
    cases prepared
  · rw [same] at prepared
    obtain ⟨⟨d, rfl⟩, -⟩ := (prepare_ends settled ip).ok prepared
    have guests : (m₀.remember d).guests = m.guests := by cases settles <;> rfl
    exact ⟨(Untouched.of_settles settles).trans (.remember m₀ d), guests,
      (LocalChange.remember m₀ d).settled settled⟩

/-- Executing `VMRESUME` is performing it. -/
theorem executeAt_of_resume {ip : Word} {m₁ : Machine} (prepared : prepare ip m = .ok i m₁)
    (opcode : i.opcode = .vmResume) :
    executeAt ip m =
      match performResume i m₁ with
      | .ok _ m' => .ok () m'
      | .error e m' => .error e m' := by
  refine (Action.bind_of_ok prepared _).trans ?_
  rw [perform_of_resume opcode]
  cases resumed : performResume i m₁ with
  | error e m' => exact Action.bind_of_error resumed _
  | ok o m' =>
    refine (Action.bind_of_ok resumed _).trans ?_
    rw [performResume_outcome resumed]
    rfl

/-- The instruction of a host that executes `VMRESUME` is performed on a machine that has only read
its segment table. -/
theorem ExecutesResume.executeAt_eq (h : m.ExecutesResume i) :
    ∃ m₀, Untouched m.begun m₀ ∧ m₀.guests = m.guests ∧ m₀.Settled ∧
      executeAt m.processor.ip m.begun =
        match performResume i m₀ with
        | .ok _ m' => .ok () m'
        | .error e m' => .error e m' := by
  have prepared := Action.eq_ok_of_outcome h.prepared
  obtain ⟨same, guests, settled⟩ := prepare_untouched prepared
  exact ⟨_, same, guests, settled, executeAt_of_resume prepared h.opcode⟩

/-- After an interrupt in the host the host goes on. -/
theorem raiseInterrupt_sameMode (host : m.processor.inGuest = false)
    (number returnIp : Word) (extra : List Word) :
    (raiseInterrupt number returnIp extra).Ends m (fun _ m' => SameMode m m')
      (fun _ m' => SameMode m m') := by
  have keeps {m₀ m' : Machine} (settles : m.Settles m₀) (change : LocalChange m₀ m') :
      SameMode m m' := settles.sameMode.trans change.sameMode
  refine raiseInterrupt_ends_of_host host (fun _ => .refl m) ?_
  refine (pushFrame_settles m number _).imp (fun _ m₁ h => ?_) fun _ m₁ h => ?_
  · obtain ⟨m₀, settles, change⟩ := h
    exact keeps settles (change.trans (.goto m₁ _))
  · obtain ⟨m₀, settles, change⟩ := h
    exact keeps settles change

/-- After a fault in the host the host goes on. -/
theorem deliverFault_sameMode (host : m.processor.inGuest = false) (ip : Word) (f : Fault) :
    (deliverFault ip f).Ends m (fun _ m' => SameMode m m') (fun _ m' => SameMode m m') := by
  obtain ⟨reason, resumeIp, extra, -, eq⟩ | ⟨number, returnIp, extra, -, eq⟩ :=
    deliverFault_cases ip f
  · rw [eq]
    exact .of_error (raiseTrap_of_host host reason resumeIp extra) (.refl m)
  · rw [eq]
    exact raiseInterrupt_sameMode host number returnIp extra

/-- Executing an instruction in the host enters a guest only by `VMRESUME`, and not if it fails. -/
theorem executeAt_mode (host : m.processor.inGuest = false) (ip : Word) :
    (executeAt ip).Ends m
      (fun _ m' => SameMode m m' ∨ ∃ i, (prepare ip).outcome m = .ok i ∧ i.opcode = .vmResume ∧
        m'.processor.guest = some i.first ∧ i.first ≠ hostSlot)
      (fun _ m' => SameMode m m') := by
  obtain ⟨-, e, -, failed⟩ | ⟨m₀, settles, settled, prepares, same⟩ := executeAt_settle m ip
  · exact .of_error failed (.refl m)
  have start := settles.sameMode
  have outcome : (prepare ip).outcome m = (prepare ip).outcome m₀ := by
    simp only [Action.outcome, prepares]
  unfold Action.Ends
  rw [same]
  refine Action.Ends.imp (executeAt_ends settled ip) ?_ ?_
  · rintro _ _ ⟨i, m₁, m₂, ip', prepared, change, effect, rfl⟩
    have before : SameMode m m₁ := start.trans change.sameMode
    have stays (same : SameMode m₁ m₂) : SameMode m (m₂.goto ip') :=
      (before.trans same).trans ⟨rfl, rfl⟩
    cases effect with
    | none | halt | print | interrupts => exact .inl (stays ⟨rfl, rfl⟩)
    | control r => cases r <;> exact .inl (stays ⟨rfl, rfl⟩)
    | resume o _ opcode host₁ resumed =>
      have entered := (performResume_enters host₁).ok resumed
      refine .inr ⟨i, outcome.trans prepared, opcode, ?_, entered.notHost⟩
      show m₂.processor.guest = some i.first
      rw [entered.processor]
      rfl
  · rintro e m' (⟨change, -⟩ | ⟨i, m₁, -, -, -, change, failed⟩)
    · exact start.trans change.sameMode
    · have before : SameMode m m₁ := start.trans change.sameMode
      exact before.trans ((performResume_enters (before.inGuest.trans host)).error failed)

/-- After a step of the host the host goes on, unless the step has executed `VMRESUME`. -/
theorem step_mode_of_host (host : m.processor.inGuest = false) :
    SameMode m (step.after m) ∨ ∃ i, m.ExecutesResume i ∧
      (step.after m).processor.guest = some i.first ∧ i.first ≠ hostSlot := by
  have begins := m.sameMode_begun
  have executes := executeAt_mode (begins.inGuest.trans host) m.processor.ip
  have stays {x : Action FatalError Unit} {m₁ : Machine} (before : SameMode m m₁)
      (keeps : x.Ends m₁ (fun _ m' => SameMode m₁ m') (fun _ m' => SameMode m₁ m'))
      (eq : step m = conclude x m₁) : SameMode m (step.after m) := by
    rw [Action.after_congr eq]
    exact before.trans (after_conclude keeps fun _ h => ⟨h.inGuest, h.slot⟩)
  cases step_cases m with
  | idle stopped eq =>
    rw [Action.after_of_ok eq]
    exact .inl (.refl m)
  | timer running fires eq =>
    exact .inl (stays begins (raiseInterrupt_sameMode (begins.inGuest.trans host) _ _ _) eq)
  | ok m' running quiet executed eq =>
    rw [Action.after_of_ok eq]
    exact (executes.ok executed).imp begins.trans fun ⟨i, prepared, opcode, entered⟩ =>
      ⟨i, ⟨running, host, quiet, prepared, opcode⟩, entered⟩
  | fatal e m' running quiet executed eq =>
    have same := begins.trans (executes.error executed)
    rw [Action.after_of_error eq]
    exact .inl ⟨same.inGuest, same.slot⟩
  | fault f m' running quiet executed eq =>
    have same := begins.trans (executes.error executed)
    exact .inl (stays same (deliverFault_sameMode (same.inGuest.trans host) _ f) eq)

/-- A step of the host after which a guest runs has executed `VMRESUME`. -/
theorem executesResume_of_enters (host : m.processor.inGuest = false)
    (inside : (step.after m).processor.inGuest = true) : ∃ i, m.ExecutesResume i := by
  rcases step_mode_of_host host with same | ⟨i, executes, -⟩
  · rw [same.inGuest, host] at inside
    cases inside
  · exact ⟨i, executes⟩

/-- A step of the host after which a guest runs has performed `VMRESUME`, and nothing failed. -/
theorem ExecutesResume.resumed_of_step (h : m.ExecutesResume i)
    (inside : (step.after m).processor.inGuest = true) :
    ∃ m₀ o, Untouched m.begun m₀ ∧ m₀.Settled ∧ performResume i m₀ = .ok o (step.after m) := by
  obtain ⟨m₀, same, -, settled, eq⟩ := h.executeAt_eq
  have host : m₀.processor.inGuest = false := by
    rw [same.processor, inGuest_begun, h.host]
  cases resumed : performResume i m₀ with
  | ok o m' =>
    simp only [resumed] at eq
    rw [Action.after_of_ok (step_of_ok h.running h.quiet eq)]
    exact ⟨m₀, o, same, settled, resumed⟩
  | error e m' =>
    have stays := ((performResume_enters host).error resumed).inGuest.trans host
    simp only [resumed] at eq
    have outside : (step.after m).processor.inGuest = false := by
      cases e with
      | fatal e =>
        rw [Action.after_of_error (step_of_fatal h.running h.quiet eq)]
        exact stays
      | fault f =>
        rw [Action.after_congr (step_of_fault h.running h.quiet eq)]
        exact after_conclude (R := fun m' => m'.processor.inGuest = false)
          ((deliverFault_sameMode stays m.processor.ip f).imp
            (fun _ _ same => same.inGuest.trans stays) fun _ _ same => same.inGuest.trans stays)
          fun _ h => h
    rw [inside] at outside
    cases outside

/-- A step of the host after which a guest runs has entered it. -/
theorem ExecutesResume.entered_of_step (h : m.ExecutesResume i)
    (inside : (step.after m).processor.inGuest = true) :
    ∃ m₀, Untouched m.begun m₀ ∧ Entered m₀ i (step.after m) := by
  obtain ⟨m₀, o, same, -, resumed⟩ := h.resumed_of_step inside
  have host : m₀.processor.inGuest = false := by
    rw [same.processor, inGuest_begun, h.host]
  exact ⟨m₀, same, (performResume_enters host).ok resumed⟩

/-- A host that is about to resume the sample guest. -/
def resumingHost : Machine :=
  { sampleGuest with
    processor :=
      { cs := 0, ds := 1, es := 1, ss := 2, rs := 3, sp := 0x300, ip := 0x10
        segmentTable := 0x400, guestTable := 0x500 }
    memory := sampleGuest.memory.place 0x10
      [Instruction.encode ⟨.vmResume, 0, [⟨.immediate, Fin.last 31⟩]⟩, 1] }

def resumeSample : ResolvedInstruction := ⟨.vmResume, 0x10, 0x12, [⟨1, none⟩]⟩

theorem resumingHost_executes : resumingHost.ExecutesResume resumeSample where
  running := by decide
  host := by decide
  quiet := by decide
  prepared := by decide +kernel
  opcode := rfl

end Machine

end WordMachine
