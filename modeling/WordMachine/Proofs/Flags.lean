import WordMachine.Proofs.ContextRoundTrip
import WordMachine.Proofs.Looking
import WordMachine.Proofs.StackSteps

/-!
# Flags and comparisons

Only `CMP` writes the flags.  Any other step leaves them alone, whatever it
executes or delivers, unless it switches between host and guest (`flags_step`).
A host that enters a guest has its flags back when the guest is left, because
they lie in row zero with the rest of its context (`Visit.flags`).

`Uncompared` are the runs put together from such steps and visits.  After a
comparison and a run of this kind, a jump still goes by the comparison
(`flags_of_comparison`).
-/

namespace WordMachine.Machine

variable {ε α β : Type} {m m' m₁ : Machine} {slot nextIp : Word} {i : ResolvedInstruction}

/-! ## Work that keeps the flags -/

/-- Work that leaves the flags alone, whether it fails or not. -/
def KeepsFlags (x : Action ε α) : Prop := ∀ flags, x.Preserves fun m => m.processor.flags = flags

namespace KeepsFlags

variable {x : Action ε α}

theorem pure (a : α) : KeepsFlags (Pure.pure a : Action ε α) := fun _ => .pure a

theorem throw (e : ε) : KeepsFlags (MonadExcept.throw e : Action ε α) := fun _ => .throw e

theorem bind {f : α → Action ε β} (first : KeepsFlags x) (next : ∀ a, KeepsFlags (f a)) :
    KeepsFlags (x >>= f) := fun flags => .bind (first flags) fun a => next a flags

theorem ite {c : Prop} [Decidable c] {y : Action ε α} (pos : KeepsFlags x) (neg : KeepsFlags y) :
    KeepsFlags (if c then x else y) := fun flags => .ite (pos flags) (neg flags)

/-- A change that cannot fail. -/
theorem update {u : Machine → Machine} (same : ∀ m, (u m).processor.flags = m.processor.flags) :
    KeepsFlags (fun m => .ok () (u m) : Action ε Unit) := fun _ m holds => (same m).trans holds

/-- What follows a look at the processor. -/
theorem look {next : Processor → Action ε β} (holds : ∀ p, KeepsFlags (next p)) :
    KeepsFlags (processorState >>= next) := fun flags m => holds m.processor flags m

theorem readCell (a : Word) : KeepsFlags (Machine.readCell a : Action ε Word) := fun _ _ h => h

theorem of_looks (looks : Looks x) : KeepsFlags x := by
  intro flags m holds
  have mapped : m.mapped.processor.flags = flags := by rw [processor_mapped, holds]
  refine (looks m).imp ?_ ?_
  all_goals
    rintro _ _ rfl
    exact mapped

theorem registerAddress (index : Nat) : KeepsFlags (Machine.registerAddress index) := by
  by_cases small : index < registerCount
  · exact .of_looks (registerAddress_looks small)
  · have refused : Machine.registerAddress index =
        MonadExcept.throw (Exception.fatal (.invalidRegister index)) := by
      unfold Machine.registerAddress
      rw [if_pos (Nat.le_of_not_lt small)]
      rfl
    rw [refused]
    exact .throw _

theorem readRegister (index : Nat) : KeepsFlags (Machine.readRegister index) :=
  .bind (.registerAddress index) fun a => .readCell a

theorem writeRegister (index : Nat) (v : Word) : KeepsFlags (Machine.writeRegister index v) :=
  .bind (.registerAddress index) fun a => .update (u := (·.setCell a v)) fun _ => rfl

theorem push (v : Word) : KeepsFlags (Machine.push v) :=
  .look fun p => .bind (.of_looks (translate_looks .stack (p.sp - 1))) fun a =>
    .bind (.update (u := (·.setCell a v)) fun _ => rfl) fun _ =>
      .update (u := (·.withSp (p.sp - 1))) fun _ => rfl

theorem pop : KeepsFlags Machine.pop :=
  .look fun p => .bind (.of_looks (translate_looks .stack p.sp)) fun a =>
    .bind (.readCell a) fun v =>
      .bind (.update (u := (·.withSp (p.sp + 1))) fun _ => rfl) fun _ => .pure v

theorem pushFrame (number : Word) (words : List Word) :
    KeepsFlags (Machine.pushFrame number words) := by
  have pushes : KeepsFlags (pushAll words) := by
    induction words with
    | nil => exact .pure ()
    | cons word words ih => exact .bind (.push word) fun _ => ih
  exact fun flags => .adapt (pushes flags)

end KeepsFlags

/-! ## Instructions -/

theorem performArithmetic_keepsFlags (i : ResolvedInstruction) :
    KeepsFlags (performArithmetic i) := by
  unfold performArithmetic
  split
  · exact .throw _
  · split
    · exact .throw _
    · exact .pure _

theorem performBranch_keepsFlags (i : ResolvedInstruction) : KeepsFlags (performBranch i) := by
  unfold performBranch
  split
  · exact .throw _
  · exact .look fun _ => .ite (.pure _) (.pure _)

theorem hostOnly_keepsFlags (reason : TrapReason) (resumeIp : Word) (extra : List Word) :
    KeepsFlags (hostOnly reason resumeIp extra) :=
  .look fun _ => .ite (.throw _) (.pure ())

theorem performSetInterrupts_keepsFlags (i : ResolvedInstruction) (on : Bool) :
    KeepsFlags (performSetInterrupts i on) :=
  .bind (hostOnly_keepsFlags _ _ _) fun _ =>
    .bind (.update (u := fun m =>
      { m with processor := m.processor.setInterruptsEnabled on }) fun _ => rfl) fun _ => .pure _

/-- Performing an instruction other than `CMP` and `VMRESUME` keeps the flags. -/
theorem perform_keepsFlags (noCompare : i.opcode ≠ .cmp) (noResume : i.opcode ≠ .vmResume) :
    KeepsFlags (perform i) := by
  have setSp (sp : Processor → Word) :
      KeepsFlags (modifyProcessor fun p => { p with sp := sp p } : Action Exception Unit) :=
    .update (u := fun m => m.withSp (sp m.processor)) fun _ => rfl
  unfold perform
  cases opcode : i.opcode
  case add | sub | mul | div | mod | or | xor | and | not | shl | shr =>
    exact performArithmetic_keepsFlags i
  case jmp | jz | jnz | jgt | jge => exact performBranch_keepsFlags i
  case mov | nop => exact .pure _
  case halt => exact .bind (hostOnly_keepsFlags _ _ _) fun _ => .pure _
  case print =>
    exact .bind (hostOnly_keepsFlags _ _ _) fun _ =>
      .bind (.update (u := (·.emit i.first)) fun _ => rfl) fun _ => .pure _
  case cmp => exact absurd opcode noCompare
  case call => exact .bind (.push _) fun _ => .pure _
  case ret | reti => exact .bind .pop fun _ => .pure _
  case retn => exact .bind .pop fun _ => .bind (setSp (·.sp + i.first)) fun _ => .pure _
  case push => exact .bind (.push _) fun _ => .pure _
  case pop => exact .bind .pop fun _ => .pure _
  case enter =>
    exact .bind (.readRegister _) fun saved => .bind (.push saved) fun _ => .look fun p =>
      .bind (.writeRegister _ p.sp) fun _ => .bind (setSp fun q => p.sp - i.first) fun _ => .pure _
  case leave =>
    exact .bind (.readRegister _) fun frame => .bind (setSp fun _ => frame) fun _ =>
      .bind .pop fun saved => .bind (.writeRegister _ saved) fun _ => .pure _
  case getArgument =>
    exact .bind (.readRegister _) fun _ => .bind (.of_looks (translate_looks _ _)) fun a =>
      .bind (.readCell a) fun _ => .pure _
  case int => exact .throw _
  case vmResume => exact absurd opcode noResume
  case cli => exact performSetInterrupts_keepsFlags i false
  case sti => exact performSetInterrupts_keepsFlags i true

theorem writeResult_keepsFlags (i : ResolvedInstruction) (o : Outcome) :
    KeepsFlags (writeResult i o) := by
  unfold writeResult
  cases o.result with
  | none => exact .pure ()
  | some v =>
    cases i.target? with
    | none => exact .throw _
    | some t =>
      cases t with
      | register index => exact .writeRegister index v
      | cell a => exact .update (u := (·.setCell a v)) fun _ => rfl
      | control r => exact .update (u := (·.setControl r v)) fun _ => by cases r <;> rfl

theorem follow_keepsFlags (i : ResolvedInstruction) (control : Control) :
    KeepsFlags (follow i control) := by
  cases control with
  | next => exact .update (u := (·.goto i.nextIp)) fun _ => rfl
  | jump target => exact .update (u := (·.goto target)) fun _ => rfl
  | redirected => exact .pure ()
  | halt =>
    exact .bind (.update (u := (·.goto i.nextIp)) fun _ => rfl) fun _ =>
      .update (u := fun m => { m with status := .halted }) fun _ => rfl

/-! ## Steps that do not switch -/

/-- The flags are the same, unless it was switched between host and guest. -/
def FlagsStay (m m' : Machine) : Prop :=
  m'.processor.inGuest = m.processor.inGuest → m'.processor.flags = m.processor.flags

/-- Work that keeps the flags of the processor with which it starts. -/
theorem KeepsFlags.flagsStay {x : Action ε α} (keeps : KeepsFlags x)
    (same : m₁.processor.flags = m.processor.flags) :
    x.Ends m₁ (fun _ => FlagsStay m) (fun _ => FlagsStay m) :=
  (keeps _ m₁ same).imp (fun _ _ h _ => h) fun _ _ h _ => h

/-- Leaving a guest succeeds, or keeps the flags of the guest. -/
theorem leaveFor_flagsStay (number : Word) (reason : TrapReason) (resumeIp : Word)
    (extra : List Word) :
    (leaveFor number reason resumeIp extra).Ends m (fun _ => FlagsStay m)
      (fun _ => FlagsStay m) := by
  cases inside : m.processor.inGuest with
  | false => exact .of_error (leaveFor_of_host inside number reason resumeIp extra) fun _ => rfl
  | true =>
    have guest := Processor.guest_of_inGuest inside
    refine leaveFor_ends guest (fun m₁ left => ?_) fun e m' broken _ => ?_
    · -- The host is back before the frame is pushed, so the flags may be others.
      have host : m₁.processor.inGuest = false := by cases left; rfl
      have back {m' : Machine} (pushed : ∃ m₀, m₁.Settles m₀ ∧ LocalChange m₀ m') :
          FlagsStay m m' := by
        obtain ⟨m₀, settles, change⟩ := pushed
        intro same
        rw [change.inGuest, settles.processor, host, inside] at same
        cases same
      exact (pushFrame_settles m₁ _ _).imp (fun _ _ => back) fun _ _ => back
    · cases broken <;> rfl

theorem raiseInterrupt_flagsStay (m : Machine) (number returnIp : Word) (extra : List Word) :
    (raiseInterrupt number returnIp extra).Ends m (fun _ => FlagsStay m)
      (fun _ => FlagsStay m) := by
  unfold raiseInterrupt
  split
  · exact .throw fun _ => rfl
  · show Action.Ends (if m.processor.inGuest then _ else _ : Action FatalError Unit) m _ _
    split
    · exact leaveFor_flagsStay _ _ _ _
    · have delivers : KeepsFlags (do
          pushFrame number (extra ++ [returnIp])
          modifyProcessor fun p => { p with ip := Interrupt.vector number } :
            Action FatalError Unit) :=
        .bind (.pushFrame _ _) fun _ => .update (u := (·.goto _)) fun _ => rfl
      exact delivers.flagsStay rfl

theorem deliverFault_flagsStay (m : Machine) (ip : Word) (f : Fault) :
    (deliverFault ip f).Ends m (fun _ => FlagsStay m) (fun _ => FlagsStay m) := by
  obtain ⟨reason, resumeIp, extra, -, eq⟩ | ⟨number, returnIp, extra, -, eq⟩ :=
    deliverFault_cases ip f
  · rw [eq]
    exact leaveFor_flagsStay _ _ _ _
  · rw [eq]
    exact raiseInterrupt_flagsStay m number returnIp extra

/-- `VMRESUME` enters a guest, or keeps the flags of the host. -/
theorem performResume_flagsStay (m : Machine) (i : ResolvedInstruction) :
    (performResume i).Ends m (fun _ => FlagsStay m) (fun _ => FlagsStay m) := by
  cases inside : m.processor.inGuest with
  | true => exact .of_error (performResume_of_guest inside) fun _ => rfl
  | false =>
    have reads : KeepsFlags guestRows := fun flags m h =>
      (guestRows_ends m).imp (by rintro _ _ (⟨-, rfl⟩ | rfl) <;> exact h) (by rintro _ _ rfl; exact h)
    have saves : KeepsFlags saveHostSlot := fun flags m h =>
      (saveSlot_ends m hostSlot).imp (by rintro _ _ ⟨-, rfl⟩; exact h)
        (by rintro _ _ ⟨guests, rfl⟩; exact h)
    have fails : (performResume i).Ends m (fun _ _ => True)
        (fun _ m' => m'.processor.flags = m.processor.flags) := by
      refine .bind (hostOnly_keepsFlags _ _ _ _ m rfl) (fun _ m₁ h₁ => ?_) fun _ _ h => h
      refine .bind (.lift (reads _ m₁ h₁)) (fun rows m₂ h₂ => ?_) fun _ _ h => h
      split
      · exact .throw h₂
      have moves : KeepsFlags (modifyProcessor fun p => { p with ip := i.nextIp } :
          Action Exception Unit) := .update (u := (·.goto i.nextIp)) fun _ => rfl
      refine .bind (moves _ m₂ h₂) (fun _ m₂ h₂ => ?_) fun _ _ h => h
      refine .bind (.lift (saves _ m₂ h₂)) (fun _ m₃ h₃ => ?_) fun _ _ h => h
      have enters : (enterGuest i.first).Ends m₃ (fun _ _ => True)
          (fun _ m' => m'.processor.flags = m.processor.flags) := by
        refine .bind (slotContext_ends m₃ i.first) (fun _ _ _ => True.intro) ?_
        rintro _ _ ⟨guests, rfl⟩
        exact h₃
      exact .bind (.lift enters) (fun _ _ _ => True.intro) fun _ _ h => h
    refine ((performResume_enters inside).and fails).imp (fun o m' h same => ?_) fun _ _ h _ => h.2
    rw [h.1.processor, inside] at same
    cases same

/-- Executing an instruction other than `CMP` keeps the flags, unless it enters a guest. -/
theorem executeAt_flagsStay {ip : Word}
    (noCompare : ∀ i, (prepare ip).outcome m = .ok i → i.opcode ≠ .cmp) :
    (executeAt ip).Ends m (fun _ => FlagsStay m) (fun _ => FlagsStay m) := by
  cases prepared : prepare ip m with
  | error e m₁ =>
    refine .of_error (Action.bind_of_error prepared _) fun _ => ?_
    obtain ⟨-, e', -, failed⟩ | ⟨m₀, settles, settled, same⟩ := prepare_settle m ip
    · rw [failed] at prepared
      cases prepared
      rfl
    · rw [← settles.processor]
      rcases ((prepare_ends settled ip).error (same.symm.trans prepared)).1 with rfl | ⟨d, rfl⟩ <;>
        rfl
  | ok i m₁ =>
    have same : m₁.processor = m.processor := (prepare_untouched prepared).1.processor
    have stays {m' : Machine} (stay : FlagsStay m₁ m') : FlagsStay m m' := by
      unfold FlagsStay at *
      rwa [same] at stay
    by_cases resume : i.opcode = .vmResume
    · unfold Action.Ends
      rw [executeAt_of_resume prepared resume]
      have ends := performResume_flagsStay m₁ i
      cases resumed : performResume i m₁ with
      | ok o m' => exact stays (ends.ok resumed)
      | error e m' => exact stays (ends.error resumed)
    · have opcode := noCompare i (by simp only [Action.outcome, prepared])
      have rest : KeepsFlags (do
          let o ← perform i
          writeResult i o
          follow i o.control : Action Exception Unit) :=
        .bind (perform_keepsFlags opcode resume) fun o =>
          .bind (writeResult_keepsFlags i o) fun _ => follow_keepsFlags i o.control
      unfold Action.Ends
      rw [show executeAt ip m = _ from Action.bind_of_ok prepared _]
      exact rest.flagsStay (congrArg (·.flags) same)

/-- Whether the next step performs a `CMP`. -/
def Compares (m : Machine) : Prop := ∃ i, m.Performs i ∧ i.opcode = .cmp

/-- A step keeps the flags unless it compares or switches between host and guest. -/
theorem flags_step (noCompare : ¬m.Compares) : FlagsStay m (step.after m) := by
  have begins {m' : Machine} (stay : FlagsStay m.begun m') : FlagsStay m m' := by
    unfold FlagsStay at *
    rwa [inGuest_begun, show m.begun.processor.flags = m.processor.flags by rw [processor_begun]]
      at stay
  cases step_cases m with
  | idle stopped eq =>
    rw [Action.after_of_ok eq]
    exact fun _ => rfl
  | timer running fires eq =>
    rw [Action.after_congr eq]
    exact begins (after_conclude (raiseInterrupt_flagsStay _ _ _ _) fun _ h => h)
  | ok m' running quiet executed eq =>
    rw [Action.after_of_ok eq]
    refine begins ((executeAt_flagsStay fun i prepared compares => ?_).ok executed)
    exact noCompare ⟨i, ⟨running, quiet, prepared⟩, compares⟩
  | fatal e m' running quiet executed eq =>
    rw [Action.after_of_error eq]
    have stay : FlagsStay m.begun m' := by
      refine (executeAt_flagsStay fun i prepared compares => ?_).error executed
      exact noCompare ⟨i, ⟨running, quiet, prepared⟩, compares⟩
    exact begins stay
  | fault f m' running quiet executed eq =>
    rw [Action.after_congr eq]
    -- The instruction broke off in the same place, so only the delivery may switch.
    obtain ⟨sp, same⟩ : ∃ sp, m'.processor = { m.begun.processor with sp := sp } := by
      rcases (executeAt_aborts m.processor.ip).error executed ⟨f, rfl⟩ with
        same | ⟨i, frame, -, -, same⟩
      · exact ⟨_, same.processor⟩
      · exact ⟨frame, same.processor⟩
    refine begins ?_
    have stay := after_conclude (R := FlagsStay m') (deliverFault_flagsStay m' m.processor.ip f)
      fun _ h => h
    unfold FlagsStay at *
    rw [same] at stay
    exact stay

/-! ## Visits of a guest -/

/-- The host `m` enters a guest, which is left when row zero is as it was on entering. -/
inductive Visit (m : Machine) : Machine → Prop
  /-- The guest is left after `n` steps in it, by the next step. -/
  | intro (n : Nat) (host : m.processor.inGuest = false)
      (inside : ∀ k ≤ n, (afterSteps k (step.after m)).processor.inGuest = true)
      (kept : ∀ a, m.InRow hostSlot a →
        (afterSteps n (step.after m)).memory.get a = (step.after m).memory.get a)
      (left : (afterSteps (n + 1) (step.after m)).processor.inGuest = false) :
      Visit m (afterSteps (n + 1) (step.after m))

/-- If leaving a guest gets as far as the host, the host has the flags that lay in row zero. -/
theorem leaveFor_flags (guest : m.processor.guest = some slot) (notHost : slot ≠ hostSlot)
    (number : Word) (reason : TrapReason) (resumeIp : Word) (extra : List Word) :
    let restored m' := m'.processor.inGuest = false →
      m'.processor.flags = (m.rowContext hostSlot).flags
    (leaveFor number reason resumeIp extra).Ends m (fun _ => restored) (fun _ => restored) := by
  have inside : m.processor.inGuest = true := Processor.inGuest_of_guest guest
  unfold Action.Ends
  rw [leaveFor_eq guest]
  refine Action.Ends.bind (saveSlot_ends (m.goto resumeIp) slot) ?_ ?_
  · rintro _ _ ⟨fits, rfl⟩
    have current := current_withSaved (m.goto resumeIp) slot
    refine .bind ((leaveGuest_ends_of_current current).and (leaveGuest_ends _)) ?_ ?_
    · rintro _ m₁ ⟨⟨hostFits, rows, rfl⟩, -⟩
      have row : ((m.goto resumeIp).withSaved slot).rowContext hostSlot = m.rowContext hostSlot :=
        rowContext_withSaved_of_ne notHost.symm hostFits fits
      have back := KeepsFlags.pushFrame number (extra ++ [reason.number, slot])
        (m.rowContext hostSlot).flags (((m.goto resumeIp).withSaved slot).toHost rows
          (((m.goto resumeIp).withSaved slot).rowContext hostSlot)) (by rw [row]; rfl)
      exact back.imp (fun _ _ h _ => h) fun _ _ h _ => h
    · rintro e _ ⟨-, guests, rfl⟩ host
      cases host.symm.trans inside
  · rintro e _ ⟨guests, rfl⟩ host
    cases host.symm.trans inside

/-- A host that waits has its flags back once the guest is left, even if the step fails later. -/
theorem HostWaits.flags (waits : HostWaits m nextIp m₁)
    (left : (step.after m₁).processor.inGuest = false) :
    (step.after m₁).processor.flags = m.processor.flags := by
  have guest := Processor.guest_of_inGuest waits.inGuest
  obtain ⟨running, e, exits⟩ := exit?_of_left guest left
  have row : (m₁.atExit.rowContext hostSlot).flags = m.processor.flags := by
    rw [rowContext_of_memory (memory_atExit exits) (guestTable_atExit exits), waits.saved]
  have leaves := leaveFor_flags ((guest_atExit exits).trans guest) waits.notHost e.number
    e.reason e.resumeIp e.extra
  have eq := Action.after_congr (step_of_exit running guest exits)
  rw [eq] at left ⊢
  rw [← row]
  exact after_conclude (R := fun m' => m'.processor.inGuest = false →
    m'.processor.flags = (m₁.atExit.rowContext hostSlot).flags) leaves (fun _ h => h) left

/-- A host that enters a guest has its flags back when the guest is left. -/
theorem Visit.flags (visit : m.Visit m') : m'.processor.flags = m.processor.flags := by
  obtain ⟨n, host, inside, kept, left⟩ := visit
  have entered := inside 0 n.zero_le
  have running : m.isRunning = true := by
    by_contra stopped
    have same := Action.after_of_ok (step_of_not_isRunning (m := m) (by simpa using stopped))
    rw [afterSteps, same, host] at entered
    cases entered
  obtain ⟨i, executes⟩ := executesResume_of_enters host entered
  have waits := executes.hostWaits entered
  obtain ⟨contained, -⟩ := run_contained (executes.isRunning_after entered) n fun k small =>
    inside k (Nat.le_of_lt small)
  have stillWaits := waits.contained contained (inside n (Nat.le_refl n)) fun a inRow =>
    kept a ((inRow_congr waits.guestTable hostSlot a).mp inRow)
  exact stillWaits.flags left

/-! ## Comparisons and jumps -/

/-- A run that neither compares nor switches between host and guest, but for visits. -/
inductive Uncompared (m : Machine) : Machine → Prop
  | refl : Uncompared m m
  | step {m₁ : Machine} (run : Uncompared m m₁) (noCompare : ¬m₁.Compares)
      (same : (step.after m₁).processor.inGuest = m₁.processor.inGuest) :
      Uncompared m (step.after m₁)
  | visit {m₁ m₂ : Machine} (run : Uncompared m m₁) (visit : m₁.Visit m₂) : Uncompared m m₂

theorem Uncompared.flags (run : Uncompared m m') : m'.processor.flags = m.processor.flags := by
  induction run with
  | refl => rfl
  | step _ noCompare same ih => exact (flags_step noCompare same).trans ih
  | visit _ visit ih => exact visit.flags.trans ih

/-- A step that performs an instruction does so on a machine in the same state. -/
theorem Performs.executeAt_eq (performs : m.Performs i) :
    ∃ m₀, Untouched m.begun m₀ ∧
      executeAt m.processor.ip m.begun =
        (do
          let o ← perform i
          writeResult i o
          follow i o.control : Action Exception Unit) m₀ := by
  have prepared := Action.eq_ok_of_outcome performs.2.2
  exact ⟨_, (prepare_untouched prepared).1, Action.bind_of_ok prepared _⟩

/-- A `CMP` succeeds and sets the flags to the comparison of its operands. -/
theorem Performs.compare (performs : m.Performs i) (opcode : i.opcode = .cmp) :
    step m = .ok true (step.after m) ∧
      (step.after m).processor.flags = .comparison i.first i.second := by
  obtain ⟨m₀, same, eq⟩ := performs.executeAt_eq
  have executed : executeAt m.processor.ip m.begun =
      .ok () ((m₀.withFlags (.comparison i.first i.second)).goto i.nextIp) := by
    rw [eq, perform, opcode]
    rfl
  have stepped := step_of_ok performs.1 performs.2.1 executed
  have running : ((m₀.withFlags (.comparison i.first i.second)).goto i.nextIp).isRunning = true := by
    show decide (m₀.status = .running) = true
    rw [same.status]
    exact performs.1
  rw [running] at stepped
  rw [Action.after_of_ok stepped]
  exact ⟨stepped, rfl⟩

/-- A jump succeeds and goes by the flags. -/
theorem Performs.branch {c : Condition} (performs : m.Performs i)
    (condition : Condition.ofOpcode? i.opcode = some c) :
    step m = .ok true (step.after m) ∧
      (step.after m).processor.ip =
        if c.holds m.processor.flags then i.first else i.nextIp := by
  obtain ⟨m₀, same, eq⟩ := performs.executeAt_eq
  have flags : m₀.processor.flags = m.processor.flags := by
    rw [same.processor, processor_begun]
  have performed : perform i m₀ =
      .ok (if c.holds m.processor.flags then .jump i.first else .next) m₀ := by
    have branches : perform i = performBranch i := by
      unfold perform
      cases opcode : i.opcode <;> simp_all [Condition.ofOpcode?]
    rw [branches, performBranch, condition, ← flags]
    show (if c.holds m₀.processor.flags then _ else _ : Action Exception Outcome) m₀ = _
    split <;> rfl
  have executed : executeAt m.processor.ip m.begun =
      .ok () (m₀.goto (if c.holds m.processor.flags then i.first else i.nextIp)) := by
    rw [eq, Action.bind_of_ok performed]
    split <;> rfl
  have running : Machine.isRunning (m₀.goto
      (if c.holds m.processor.flags then i.first else i.nextIp)) = true := by
    show decide (m₀.status = .running) = true
    rw [same.status]
    exact performs.1
  have stepped := step_of_ok performs.1 performs.2.1 executed
  rw [running] at stepped
  rw [Action.after_of_ok stepped]
  exact ⟨stepped, rfl⟩

/-- A jump goes by the last comparison before it, and a visit of a guest gives the host its flags
back whatever the guest compared. -/
theorem flags_of_comparison :
    (∀ (m m' : Machine) (i j : ResolvedInstruction) (c : Condition),
      m.Performs i → i.opcode = .cmp → Uncompared (step.after m) m' →
      m'.Performs j → Condition.ofOpcode? j.opcode = some c →
      step m' = .ok true (step.after m') ∧
        (c.Relates i.first i.second → (step.after m').processor.ip = j.first) ∧
        (¬c.Relates i.first i.second → (step.after m').processor.ip = j.nextIp)) ∧
    ∀ m m' : Machine, m.Visit m' → m'.processor.flags = m.processor.flags := by
  refine ⟨fun m m' i j c compares opcode run branches condition => ?_, fun m m' visit => visit.flags⟩
  obtain ⟨stepped, ip⟩ := branches.branch condition
  have flags : m'.processor.flags = .comparison i.first i.second :=
    run.flags.trans (compares.compare opcode).2
  rw [flags] at ip
  refine ⟨stepped, fun relates => ?_, fun differs => ?_⟩
  · rw [ip, if_pos ((c.holds_comparison _ _).mpr relates)]
  · rw [ip, if_neg (mt (c.holds_comparison _ _).mp differs)]

/-- A host that compares a cell with a word, lets a guest compare the cell with another word, and
jumps. -/
def comparingHost : Machine where
  processor := { ip := 0x10, sp := 0x1000, guestTable := 0x500 }
  memory :=
    (((Memory.empty.place 0
      [Instruction.encode ⟨.cmp, 0, [⟨.singleDs, Fin.last 31⟩, ⟨.immediate, Fin.last 31⟩]⟩, 0x40, 3,
        Instruction.encode ⟨.halt, 0, []⟩]).place 0x10
      [Instruction.encode ⟨.cmp, 0, [⟨.singleDs, Fin.last 31⟩, ⟨.immediate, Fin.last 31⟩]⟩, 0x40, 5,
        Instruction.encode ⟨.vmResume, 0, [⟨.immediate, Fin.last 31⟩]⟩, 1,
        Instruction.encode ⟨.jnz, 0, [⟨.immediate, Fin.last 31⟩]⟩, 0x80]).place 0x40 [3]).place 0x500
      (({} : Context).toRow.toList ++ ({ sp := 0x800 } : Context).toRow.toList)

def compareThreeFive : ResolvedInstruction :=
  ⟨.cmp, 0x10, 0x13, [⟨3, some (.cell 0x40)⟩, ⟨5, none⟩]⟩

def jumpNotZero : ResolvedInstruction := ⟨.jnz, 0x15, 0x17, [⟨0x80, none⟩]⟩

theorem comparingHost_visit :
    (step.after comparingHost).Visit (afterSteps 4 comparingHost) :=
  .intro 1 (by decide +kernel) (by decide +kernel) (forall_inRow (by decide +kernel))
    (by decide +kernel)

/-- The guest compares equal words, but the host jumps because its own word differs. -/
theorem flags_of_comparison_comparingHost :
    comparingHost.Performs compareThreeFive ∧ compareThreeFive.opcode = .cmp ∧
      (step.after comparingHost).Visit (afterSteps 4 comparingHost) ∧
      (afterSteps 4 comparingHost).Performs jumpNotZero ∧
      Condition.ofOpcode? jumpNotZero.opcode = some .notZero ∧
      (afterSteps 5 comparingHost).processor.ip = 0x80 ∧
      (afterSteps 4 comparingHost).processor.flags =
        (step.after comparingHost).processor.flags := by
  have compares : comparingHost.Performs compareThreeFive := by decide +kernel
  have branches : (afterSteps 4 comparingHost).Performs jumpNotZero := by decide +kernel
  have differ : Condition.notZero.Relates compareThreeFive.first compareThreeFive.second :=
    show (3 : Word) ≠ 5 by decide
  obtain ⟨-, jumps, -⟩ := flags_of_comparison.1 comparingHost _ _ _ .notZero compares rfl
    (.visit .refl comparingHost_visit) branches rfl
  exact ⟨compares, rfl, comparingHost_visit, branches, rfl, jumps differ,
    flags_of_comparison.2 _ _ comparingHost_visit⟩

end WordMachine.Machine
