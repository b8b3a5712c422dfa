import WordMachine.Machine.Report
import WordMachine.Proofs.Console
import WordMachine.Proofs.Parts

/-!
# Machines that can be reached

A program that owns a machine takes steps, delivers interrupts, switches guests
by hand, and reads and writes registers and memory.  These are the operations,
and a machine is `Reachable` if operations lead to it from the initial one.

The guest table that a reachable machine keeps was read at the address that its
table register still has.  So every row of it has addresses
(`Reachable.guestsFit`), whatever happened to the memory since.

Work is `Orderly` if it keeps such a table and traps only in a guest.  That is a
compositional property (`orderly`), and `executeAt_fits` adds the instruction that
enters a guest.
-/

namespace WordMachine.Machine

variable {α β : Type} {m m' m₁ m₂ : Machine}

/-! ## Tables that have addresses -/

/-- Whether the rows of the guest table that is kept, and the row that ends it, have addresses. -/
def GuestsFit (m : Machine) : Prop :=
  ∀ rows, m.guests.snapshot = some rows →
    m.processor.guestTable.toNat + Context.rowWidth * (rows.length + 1) ≤ Word.count

theorem guestsFit_of_stale (stale : m.guests.snapshot = none) : m.GuestsFit := by
  intro rows kept
  rw [stale] at kept
  cases kept

theorem GuestsFit.congr (h : m.GuestsFit) (guests : m'.guests = m.guests)
    (table : m'.processor.guestTable = m.processor.guestTable) : m'.GuestsFit := by
  unfold GuestsFit at *
  rw [guests, table]
  exact h

theorem guestsFit_of_table {rows : List Context}
    (table : m.memory.guestTable m.processor.guestTable = .ok rows) :
    GuestsFit { m with guests := ⟨some rows⟩ } := by
  intro rows' kept
  obtain rfl : rows = rows' := Option.some.inj kept
  exact Memory.fits_of_guestTable table

/-- What work leaves alone that neither enters a guest nor leaves it. -/
structure Keeps (m m' : Machine) : Prop where
  fits : m.GuestsFit → m'.GuestsFit
  mode : m'.processor.inGuest = m.processor.inGuest

theorem Keeps.refl (m : Machine) : Keeps m m := ⟨fun h => h, rfl⟩

theorem Keeps.trans (h : Keeps m m₁) (h₁ : Keeps m₁ m₂) : Keeps m m₂ :=
  ⟨fun fits => h₁.fits (h.fits fits), h₁.mode.trans h.mode⟩

theorem Keeps.of_same (guests : m'.guests = m.guests)
    (table : m'.processor.guestTable = m.processor.guestTable)
    (mode : m'.processor.inGuest = m.processor.inGuest) : Keeps m m' where
  fits h := h.congr guests table
  mode := mode

theorem keeps_setControl (m : Machine) (r : ControlRegister) (value : Word) :
    Keeps m (m.setControl r value) := by
  cases r
  case guestTable => exact ⟨fun _ => guestsFit_of_stale rfl, rfl⟩
  all_goals exact .of_same rfl rfl rfl

theorem keeps_begun (m : Machine) : Keeps m m.begun :=
  .of_same rfl (by rw [processor_begun]) m.inGuest_begun

/-! ## Orderly work -/

/-- Work inside an instruction that keeps the table and the mode, and traps only in a guest. -/
def Orderly (x : Action Exception α) : Prop :=
  ∀ m, x.Ends m (fun _ m' => Keeps m m')
    (fun e m' => Keeps m m' ∧ (e.IsTrap → m.processor.inGuest = true))

namespace Orderly

variable {x : Action Exception α} {f : α → Action Exception β}

theorem pure (a : α) : Orderly (Pure.pure a) := fun m => Keeps.refl m

theorem throw {e : Exception} (noTrap : ¬e.IsTrap) :
    Orderly (MonadExcept.throw e : Action Exception α) :=
  fun m => ⟨.refl m, fun trap => absurd trap noTrap⟩

theorem bind (first : Orderly x) (next : ∀ a, Orderly (f a)) : Orderly (x >>= f) := by
  intro m
  refine Action.Ends.bind (first m) (fun a m₁ kept => ?_) fun e m₁ h => h
  refine (next a m₁).imp (fun b m₂ h => kept.trans h) fun e m₂ h => ⟨kept.trans h.1, ?_⟩
  intro trap
  rw [← kept.mode]
  exact h.2 trap

theorem ite {c : Prop} [Decidable c] {y : Action Exception α} (pos : Orderly x)
    (neg : Orderly y) : Orderly (if c then x else y) := by
  split
  · exact pos
  · exact neg

/-- A change that cannot fail. -/
theorem update {g : Machine → Machine} (keeps : ∀ m, Keeps m (g m)) :
    Orderly (fun m => .ok () (g m) : Action Exception Unit) := keeps

/-- Work of the host level. -/
theorem lift {y : Action FatalError α}
    (keeps : ∀ m, y.Ends m (fun _ m' => Keeps m m') (fun _ m' => Keeps m m')) :
    Orderly (liftM y : Action Exception α) := by
  intro m
  exact .lift ((keeps m).imp (fun _ _ h => h) fun e m' h => ⟨h, fun trap => trap.elim⟩)

end Orderly

theorem processorState_orderly : Orderly processorState := fun m => Keeps.refl m

/-! ## Translation -/

theorem segmentRows_keeps (m : Machine) :
    segmentRows.Ends m (fun _ m' => Keeps m m') (fun _ m' => m' = m) := by
  unfold Action.Ends segmentRows
  cases m.processor.isSegmented with
  | false => exact .refl m
  | true =>
    cases m.segments.rows fun _ => m.memory.segmentTable m.processor.segmentTable with
    | error e => rfl
    | ok read => exact .of_same rfl rfl rfl

theorem segmentOf_orderly (space : AddressSpace) :
    Orderly (liftM (segmentOf space) : Action Exception (Option Segment)) := by
  refine .lift fun m => ?_
  show (segmentRows >>= _).Ends m _ _
  refine .bind (segmentRows_keeps m) (fun rows m' kept => .pure kept) ?_
  rintro e _ rfl
  exact .refl _

theorem translate_orderly (space : AddressSpace) (offset : Word) :
    Orderly (translate space offset) := by
  refine .bind processorState_orderly fun p => .ite ?_ (.pure _)
  refine .bind (segmentOf_orderly space) fun segment => .ite (.pure _) (.throw id)

theorem registerAddress_orderly (index : Nat) : Orderly (registerAddress index) := by
  -- A number that no register has is refused first.
  refine .ite (.bind (.throw id) fun _ => ?_) ?_
  all_goals
    refine .bind processorState_orderly fun p => .ite ?_ (.pure _)
    refine .bind (segmentOf_orderly .register) fun segment => ?_
    split
    · exact .throw id
    · simp only
      split
      · exact .pure _
      · exact .throw id

/-! ## Traps -/

/-- A trap of the current mode. -/
theorem guestTrap_orderly (reason : TrapReason) (resumeIp : Word) (extra : List Word)
    {next : Processor → Action Exception α} (orderly : ∀ p, Orderly (next p)) :
    Orderly (do
      let p ← processorState
      if p.inGuest then Action.fault (.guestTrap reason resumeIp extra) else next p) := by
  intro m
  show Action.Ends (if m.processor.inGuest then _ else _ : Action Exception α) m _ _
  cases guest : m.processor.inGuest with
  | true => exact ⟨.refl m, fun _ => rfl⟩
  | false => exact (orderly m.processor m).imp (fun _ _ h => h) fun _ _ h => by rwa [guest] at h

theorem resolveControl_orderly (ip : Word) (position : Nat) (register : Fin 32) :
    Orderly (resolveControl ip position register) := by
  unfold resolveControl
  split
  · exact .throw id
  · exact guestTrap_orderly _ _ _ fun p => .pure _

theorem hostOnly_orderly (reason : TrapReason) (resumeIp : Word) (extra : List Word) :
    Orderly (hostOnly reason resumeIp extra) :=
  guestTrap_orderly reason resumeIp extra fun _ => .pure _

/-! ## Instructions -/

theorem orderly : Compositional fun _ x => Orderly x where
  pure := .pure
  throw := .throw
  bind := .bind
  look _ holds := .bind processorState_orderly holds
  readCell _ m := .refl m
  change c := by
    refine .update fun m => ?_
    have same := c.hidden_apply m
    simp only [hidden, Hidden.mk.injEq] at same
    obtain ⟨-, guests, -, table, -, mode, -⟩ := same
    exact .of_same guests table mode
  translate _ := translate_orderly _
  registerAddress := registerAddress_orderly
  hostOnly := hostOnly_orderly

theorem prepare_orderly (ip : Word) : Orderly (prepare ip) :=
  orderly.prepare (fun _ => .update fun _ => .of_same rfl rfl rfl) fun position register =>
    resolveControl_orderly ip position register

/-- What follows once an instruction was performed. -/
theorem finish_orderly (i : ResolvedInstruction) (o : Outcome) :
    Orderly (do writeResult i o; follow i o.control : Action Exception Unit) := by
  have control (r : ControlRegister) (v : Word) : Orderly (writeBack v (.control r)) :=
    .update fun m => keeps_setControl m r v
  exact .bind (orderly.writeResult (fun r v _ => control r v) o) fun _ => orderly.follow i o.control

/-! ## Guests -/

/-- Whether a guest table is installed that fails to be read. -/
def GuestsUnreadable (m : Machine) (e : FatalError) : Prop :=
  m.processor.hasGuestTable = true ∧ m.memory.guestTable m.processor.guestTable = .error e

/-- Whether an error is that of a row of the guest table that cannot be had. -/
def RowFailure (m : Machine) (e : FatalError) : Prop :=
  m.GuestsUnreadable e ∨ ∃ slot, e = .unknownGuestSlot slot

theorem guestRows_fits (fits : m.GuestsFit) :
    guestRows.Ends m
      (fun rows m' => m'.GuestsFit ∧ (rows = [] ∨ m' = { m with guests := ⟨some rows⟩ }))
      (fun e m' => m'.GuestsFit ∧ m'.RowFailure e) := by
  unfold Action.Ends guestRows TableCache.rows
  cases installed : m.processor.hasGuestTable with
  | false => exact ⟨fits, .inl rfl⟩
  | true =>
    cases kept : m.guests.snapshot with
    | some rows =>
      have same : m.guests = ⟨some rows⟩ := congrArg TableCache.mk kept
      exact ⟨fits.congr rfl rfl, .inr (by rw [← same])⟩
    | none =>
      cases table : m.memory.guestTable m.processor.guestTable with
      | error e => exact ⟨fits, .inl ⟨installed, table⟩⟩
      | ok rows => exact ⟨guestsFit_of_table table, .inr rfl⟩

/-- A row that is found has addresses. -/
theorem slotContext_fits (fits : m.GuestsFit) (slot : Word) :
    (slotContext slot).Ends m
      (fun _ m' => m'.GuestsFit ∧ m'.rowStart slot + Context.rowWidth ≤ Word.count)
      (fun e m' => m'.GuestsFit ∧ m'.RowFailure e) := by
  refine .bind (guestRows_fits fits) ?_ fun _ _ h => h
  rintro rows m' ⟨fits', read⟩
  cases found : rows[slot.toNat]? with
  | none => exact .throw ⟨fits', .inr ⟨slot, rfl⟩⟩
  | some context =>
    obtain ⟨known, -⟩ := List.getElem?_eq_some_iff.mp found
    rcases read with rfl | rfl
    · simp at found
    · have whole := fits' rows rfl
      refine .pure ⟨fits', ?_⟩
      simp only [rowStart, Context.rowWidth] at *
      omega

theorem saveSlot_fits (fits : m.GuestsFit) (slot : Word) :
    (saveSlot slot).Ends m (fun _ m' => m'.GuestsFit)
      (fun e m' => m'.GuestsFit ∧ m'.RowFailure e) := by
  have looks := slotContext_fits fits slot
  cases known : slotContext slot m with
  | error e m' => exact .of_error (Action.bind_of_error known _) (looks.error known)
  | ok context m' =>
    obtain ⟨-, row⟩ := looks.ok known
    exact .of_ok ((saveSlot_eq known).trans (if_pos row)) (guestsFit_of_stale rfl)

theorem enterGuest_fits (fits : m.GuestsFit) (slot : Word) :
    (enterGuest slot).Ends m (fun _ m' => m'.GuestsFit)
      (fun e m' => m'.GuestsFit ∧ m'.RowFailure e) :=
  .bind (slotContext_fits fits slot) (fun _ _ h => h.1.congr rfl rfl) fun _ _ h => h

theorem leaveGuest_fits (fits : m.GuestsFit) :
    leaveGuest.Ends m (fun _ m' => m'.GuestsFit) (fun e m' => m'.GuestsFit ∧ m'.RowFailure e) :=
  .bind (slotContext_fits fits hostSlot) (fun _ _ h => h.1.congr rfl rfl) fun _ _ h => h

/-- What holds of the exception and the machine if entering a guest fails. -/
structure ResumeFailure (m : Machine) (e : Exception) (m' : Machine) : Prop where
  fits : m'.GuestsFit
  trap : e.IsTrap → m.processor.inGuest = true
  /-- A fatal error is about a row of the guest table. -/
  fatal : ∀ e', e = .fatal e' → m'.RowFailure e'

theorem ResumeFailure.lift {x : Action FatalError α} {Q : α → Machine → Prop}
    (ends : x.Ends m₁ Q fun e m' => m'.GuestsFit ∧ m'.RowFailure e) :
    (liftM x : Action Exception α).Ends m₁ Q (m.ResumeFailure) := by
  refine .lift (ends.imp (fun _ _ h => h) fun e m' h => ⟨h.1, fun trap => trap.elim, ?_⟩)
  rintro _ ⟨⟩
  exact h.2

theorem performResume_fits (fits : m.GuestsFit) (i : ResolvedInstruction) :
    (performResume i).Ends m (fun _ m' => m'.GuestsFit) m.ResumeFailure := by
  cases guest : m.processor.inGuest with
  | true =>
    refine .of_error (performResume_of_guest guest) ⟨fits, fun _ => guest, ?_⟩
    rintro _ ⟨⟩
  | false =>
    have reads := guestRows_fits fits
    cases looked : guestRows m with
    | error e m₁ =>
      obtain ⟨fits₁, failed⟩ := reads.error looked
      refine .of_error (performResume_of_unreadable guest looked) ⟨fits₁, fun trap => trap.elim, ?_⟩
      rintro _ ⟨⟩
      exact failed
    | ok rows m₁ =>
      obtain ⟨fits₁, -⟩ := reads.ok looked
      have checked := performResume_of_rows (i := i) guest looked
      split at checked
      · refine .of_error checked ⟨fits₁, fun trap => trap.elim, ?_⟩
        rintro _ ⟨⟩
      · have moved : (m₁.goto i.nextIp).GuestsFit := fits₁.congr rfl rfl
        unfold Action.Ends
        rw [checked]
        refine Action.Ends.bind (ResumeFailure.lift (saveSlot_fits moved hostSlot))
          (fun _ m₂ fits₂ => ?_) fun _ _ h => h
        exact .bind (ResumeFailure.lift (enterGuest_fits fits₂ i.first)) (fun _ _ h => .pure h)
          fun _ _ h => h

/-- Executing an instruction keeps the rows of the guest table where they have addresses, and traps
only in a guest. -/
theorem executeAt_fits (fits : m.GuestsFit) (ip : Word) :
    (executeAt ip).Ends m (fun _ m' => m'.GuestsFit)
      (fun e m' => m'.GuestsFit ∧ (e.IsTrap → m.processor.inGuest = true)) := by
  have prepares := prepare_orderly ip m
  cases prepared : prepare ip m with
  | error e m₁ =>
    obtain ⟨kept, trap⟩ := prepares.error prepared
    exact .of_error (Action.bind_of_error prepared _) ⟨kept.fits fits, trap⟩
  | ok i m₁ =>
    have kept := prepares.ok prepared
    by_cases opcode : i.opcode = .vmResume
    · have resumes := performResume_fits (kept.fits fits) i
      unfold Action.Ends
      rw [executeAt_of_resume prepared opcode]
      cases resumed : performResume i m₁ with
      | ok o m₂ => exact resumes.ok resumed
      | error e m₂ =>
        have failure := resumes.error resumed
        exact ⟨failure.fits, fun trap => kept.mode ▸ failure.trap trap⟩
    · have rest : Orderly (perform i >>= fun o => do writeResult i o; follow i o.control) :=
        .bind (orderly.perform opcode) fun o => finish_orderly i o
      unfold Action.Ends
      rw [show executeAt ip m = _ from Action.bind_of_ok prepared _]
      refine Action.Ends.imp (rest m₁) (fun _ _ h => h.fits (kept.fits fits)) fun e m₂ h => ?_
      exact ⟨h.1.fits (kept.fits fits), fun trap => kept.mode ▸ h.2 trap⟩

/-! ## What a step keeps -/

theorem pushFrame_fits (number : Word) (words : List Word) :
    (pushFrame number words).Preserves GuestsFit :=
  .adapt fun m fits => (orderly.pushAll words m).imp (fun _ _ h => h.fits fits)
    fun _ _ h => h.1.fits fits

theorem leaveFor_fits (number : Word) (reason : TrapReason) (resumeIp : Word) (extra : List Word) :
    (leaveFor number reason resumeIp extra).Preserves GuestsFit := by
  refine .bind (fun _ h => h) fun p => .ite ?_ (.throw _)
  refine .bind (fun m fits => fits.congr rfl rfl) fun _ => ?_
  refine .bind (fun m fits => (saveSlot_fits fits _).imp (fun _ _ h => h) fun _ _ h => h.1) ?_
  intro _
  refine .bind (fun m fits => (leaveGuest_fits fits).imp (fun _ _ h => h) fun _ _ h => h.1) ?_
  intro _
  exact pushFrame_fits _ _

theorem raiseInterrupt_fits (number returnIp : Word) (extra : List Word) :
    (raiseInterrupt number returnIp extra).Preserves GuestsFit := by
  refine .ite (.bind (.throw _) fun _ => ?_) ?_
  all_goals
    refine .bind (fun _ h => h) fun p => .ite (leaveFor_fits _ _ _ _) ?_
    exact .bind (pushFrame_fits _ _) fun _ m fits => fits.congr rfl rfl

theorem deliverFault_fits (ip : Word) (f : Fault) : (deliverFault ip f).Preserves GuestsFit := by
  obtain ⟨reason, resumeIp, extra, -, eq⟩ | ⟨number, returnIp, extra, -, eq⟩ :=
    deliverFault_cases ip f
  · rw [eq]
    exact leaveFor_fits _ _ _ _
  · rw [eq]
    exact raiseInterrupt_fits _ _ _

theorem step_fits : step.Preserves GuestsFit := by
  intro m fits
  have begun : m.begun.GuestsFit := (keeps_begun m).fits fits
  have concludes {x : Action FatalError Unit} (keeps : x.Preserves GuestsFit) {m₁ : Machine}
      (fits₁ : m₁.GuestsFit) :
      (conclude x).Ends m₁ (fun _ m' => m'.GuestsFit) (fun _ m' => m'.GuestsFit) := by
    refine (conclude_ends (keeps m₁ fits₁)).imp (fun _ _ h => h.2) ?_
    rintro e _ ⟨m', fits', rfl⟩
    exact fits'.congr rfl rfl
  have executes := executeAt_fits begun m.processor.ip
  unfold Action.Ends
  cases step_cases m with
  | idle stopped eq =>
    rw [eq]
    exact fits
  | timer running fires eq =>
    rw [eq]
    exact concludes (raiseInterrupt_fits _ _ _) begun
  | ok m' running quiet executed eq =>
    rw [eq]
    exact executes.ok executed
  | fatal e m' running quiet executed eq =>
    rw [eq]
    exact (executes.error executed).1.congr rfl rfl
  | fault f m' running quiet executed eq =>
    rw [eq]
    exact concludes (deliverFault_fits _ f) (executes.error executed).1

theorem stepTo_fits (sink : Sink) : (stepTo sink).Preserves GuestsFit := by
  intro m fits
  unfold Action.Ends
  obtain same | ⟨byte, text, -, -, refused⟩ := stepTo_cases sink m
  · rw [same]
    exact step_fits m fits
  · have prepared : Keeps m.begun ((prepare m.processor.ip).after m.begun) :=
      ((prepare_orderly m.processor.ip m.begun).imp (fun _ _ h => h) fun _ _ h => h.1).after
    rw [refused]
    exact (((keeps_begun m).trans prepared).fits fits).congr rfl rfl

/-! ## Operations -/

/-- What a program that owns a machine can do with it.  A run is a row of steps. -/
inductive Operation where
  | step (sink : Sink)
  | reset
  /-- Puts another processor in place, with no tables read yet. -/
  | restore (p : Processor)
  | setContext (c : Context)
  | setTimer (counter compare : Word) (interrupt : InterruptControl)
  | setControl (r : ControlRegister) (value : Word)
  | setMemory (memory : Memory)
  | setStatus (status : Status)
  | setCycles (cycles : UInt64)
  | takeConsole
  -- Those that look something up may read a table, and keep it.
  | segmentRows
  | guestRows
  | translate (space : AddressSpace) (offset : Word)
  | registerAddress (index : Nat)
  | readRegister (index : Nat)
  | writeRegister (index : Nat) (value : Word)
  | raiseInterrupt (number returnIp : Word) (extra : List Word)
  | raiseTrap (reason : TrapReason) (resumeIp : Word) (extra : List Word)
  | enterGuest (slot : Word)
  | saveSlot (slot : Word)
  | leaveGuest
  | dump

/-- The machine after an operation. -/
def Operation.apply : Operation → Machine → Machine
  | .step sink, m => (stepTo sink).after m
  | .reset, m => m.reset
  | .restore p, m => { m with processor := p, segments := {}, guests := {} }
  | .setContext c, m => { m with processor := m.processor.withContext c }
  | .setTimer counter compare interrupt, m =>
    { m with processor := { m.processor with counter, compare, interrupt } }
  | .setControl r value, m => m.setControl r value
  | .setMemory memory, m => { m with memory }
  | .setStatus status, m => { m with status }
  | .setCycles cycles, m => { m with cycles }
  | .takeConsole, m => m.takeConsole.2
  | .segmentRows, m => Machine.segmentRows.after m
  | .guestRows, m => Machine.guestRows.after m
  | .translate space offset, m => (Machine.translate space offset).after m
  | .registerAddress index, m => (Machine.registerAddress index).after m
  | .readRegister index, m => (Machine.readRegister index).after m
  | .writeRegister index value, m => (Machine.writeRegister index value).after m
  | .raiseInterrupt number returnIp extra, m => (Machine.raiseInterrupt number returnIp extra).after m
  | .raiseTrap reason resumeIp extra, m => (Machine.raiseTrap reason resumeIp extra).after m
  | .enterGuest slot, m => (Machine.enterGuest slot).after m
  | .saveSlot slot, m => (Machine.saveSlot slot).after m
  | .leaveGuest, m => Machine.leaveGuest.after m
  | .dump, m => (Machine.dump : Action FatalError String).after m

/-- The machines that operations lead to. -/
inductive Reachable : Machine → Prop
  | initial : Reachable .initial
  | apply {m : Machine} (op : Operation) (before : Reachable m) : Reachable (op.apply m)

theorem Orderly.preserves {x : Action Exception α} (orderly : Orderly x) :
    x.Preserves GuestsFit :=
  fun m fits => (orderly m).imp (fun _ _ h => h.fits fits) fun _ _ h => h.1.fits fits

theorem registers_fits : (registers : Action FatalError _).Preserves GuestsFit := by
  have from_ (index count : Nat) :
      (registersFrom index count : Action FatalError _).Preserves GuestsFit := by
    induction count generalizing index with
    | zero => exact .pure _
    | succ count ih =>
      refine .bind (Orderly.preserves (orderly.readRegister index)).attempt fun value => ?_
      exact .bind (ih (index + 1)) fun rest => .pure _
  exact from_ 0 registerCount

/-- No operation makes the machine keep a table without addresses. -/
theorem guestsFit_apply (fits : m.GuestsFit) (op : Operation) : (op.apply m).GuestsFit := by
  cases op with
  | step sink => exact (stepTo_fits sink).after fits
  | reset => exact guestsFit_of_stale rfl
  | restore p => exact guestsFit_of_stale rfl
  | setContext c => exact fits.congr rfl rfl
  | setTimer counter compare interrupt => exact fits.congr rfl rfl
  | setControl r value => exact (keeps_setControl m r value).fits fits
  | setMemory memory => exact fits.congr rfl rfl
  | setStatus status => exact fits.congr rfl rfl
  | setCycles cycles => exact fits.congr rfl rfl
  | takeConsole => exact fits.congr rfl rfl
  | segmentRows =>
    refine Action.Ends.after ((segmentRows_keeps m).imp (fun _ _ h => h.fits fits) ?_)
    rintro _ _ rfl
    exact fits
  | guestRows =>
    exact Action.Ends.after ((guestRows_fits fits).imp (fun _ _ h => h.1) fun _ _ h => h.1)
  | translate space offset => exact (translate_orderly space offset).preserves.after fits
  | registerAddress index => exact (registerAddress_orderly index).preserves.after fits
  | readRegister index => exact (Orderly.preserves (orderly.readRegister index)).after fits
  | writeRegister index value => exact (Orderly.preserves (orderly.writeRegister index value)).after fits
  | raiseInterrupt number returnIp extra => exact (raiseInterrupt_fits _ _ _).after fits
  | raiseTrap reason resumeIp extra => exact (leaveFor_fits _ _ _ _).after fits
  | enterGuest slot =>
    exact Action.Ends.after ((enterGuest_fits fits slot).imp (fun _ _ h => h) fun _ _ h => h.1)
  | saveSlot slot =>
    exact Action.Ends.after ((saveSlot_fits fits slot).imp (fun _ _ h => h) fun _ _ h => h.1)
  | leaveGuest =>
    exact Action.Ends.after ((leaveGuest_fits fits).imp (fun _ _ h => h) fun _ _ h => h.1)
  | dump =>
    refine Action.Preserves.after (.bind (.bind registers_fits fun values => ?_) fun _ => .pure _) fits
    exact .bind (fun _ h => h) fun _ => .pure _

theorem Reachable.afterSteps (h : Reachable m) (n : Nat) : Reachable (m.afterSteps n) := by
  induction n with
  | zero => exact h
  | succ n ih =>
    have next := ih.apply (.step .buffer)
    rwa [Operation.apply, stepTo_buffer] at next

theorem Reachable.guestsFit (h : Reachable m) : m.GuestsFit := by
  induction h with
  | initial => exact guestsFit_of_stale rfl
  | apply op before ih => exact guestsFit_apply ih op

end WordMachine.Machine
