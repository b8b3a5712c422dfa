import WordMachine.Proofs.MissingSlot
import WordMachine.Proofs.Reachable

/-!
# What a step can fail with

A fatal error stops the machine, so a program must not be able to cause one that
points at a defect of the machine itself.  `Failure` lists what is left: a table
that cannot be read, a row that the guest table does not have, a stack without
room for the frame of an interrupt, and a sink that refuses a byte.

Every part that may fail on the way says in its lemma what it fails with.  The
parts are translation, the frame, the switch between host and guest, and the
instruction.
-/

namespace WordMachine

/-- Whether an error would point at a defect of the machine. -/
def FatalError.isDefect : FatalError → Bool
  | .missingWriteTarget _ | .noHandler _ | .invalidRegister _ | .interruptOutOfRange _
  | .notInGuest => true
  | .memory (.dataOutOfBounds _ _) | .memory (.misalignedImage _) => true
  | _ => false

namespace Machine

variable {α β : Type} {m m' : Machine} {sink : Sink} {e : FatalError}

/-! ## How work fails -/

/-- Work of which every failure is one of those that `E` allows. -/
def Fails {ε : Type} (x : Action ε α) (E : ε → Machine → Prop) : Prop :=
  ∀ m, x.Ends m (fun _ _ => True) E

namespace Fails

variable {ε ε' : Type} {x : Action ε α} {E E' : ε → Machine → Prop}

theorem pure (a : α) : Fails (Pure.pure a : Action ε α) E := fun _ => trivial

theorem bind {f : α → Action ε β} (first : Fails x E) (next : ∀ a, Fails (f a) E) :
    Fails (x >>= f) E :=
  fun m => .bind (first m) (fun a m' _ => next a m') fun _ _ h => h

theorem ite {c : Prop} [Decidable c] {y : Action ε α} (pos : Fails x E) (neg : Fails y E) :
    Fails (if c then x else y) E := by
  split
  · exact pos
  · exact neg

theorem imp (fails : Fails x E) (weaker : ∀ e m, E e m → E' e m) : Fails x E' :=
  fun m => (fails m).imp (fun _ _ h => h) weaker

theorem adapt {f : ε → ε'} {E : ε' → Machine → Prop} (fails : Fails x fun e => E (f e)) :
    Fails (x.adaptExcept f) E := fun m => Action.Ends.adapt (fails m)

end Fails

theorem processorState_fails {ε : Type} {E : ε → Machine → Prop} : Fails processorState E :=
  fun _ => trivial

theorem modifyProcessor_fails {ε : Type} {E : ε → Machine → Prop} {f : Processor → Processor} :
    Fails (modifyProcessor f) E := fun _ => trivial

/-! ## Reading the segment table -/

theorem segmentRows_fails : Fails segmentRows fun e m => m.SegmentsUnreadable e := by
  intro m
  unfold Action.Ends segmentRows TableCache.rows
  cases segmented : m.processor.isSegmented with
  | false => trivial
  | true =>
    cases m.segments.snapshot with
    | some rows => trivial
    | none =>
      cases table : m.memory.segmentTable m.processor.segmentTable with
      | ok rows => trivial
      | error e => exact ⟨segmented, table⟩

/-- How a translation fails: the table cannot be read, or the segment does not cover the offset. -/
def TranslationFailure (kind : SegmentKind) (x : Exception) (m : Machine) : Prop :=
  (∃ e, x = .fatal e ∧ m.SegmentsUnreadable e) ∨ ∃ offset, x = .fault (.segmentViolation kind offset)

theorem translate_fails (space : AddressSpace) (offset : Word) :
    Fails (translate space offset) (TranslationFailure space.kind) := by
  have finds : Fails (segmentOf space) fun e m => m.SegmentsUnreadable e :=
    .bind processorState_fails fun p => .bind segmentRows_fails fun _ => .pure _
  have looks : Fails (liftM (segmentOf space) : Action Exception (Option Segment))
      (TranslationFailure space.kind) :=
    fun m => .lift ((finds m).imp (fun _ _ h => h) fun e m h => .inl ⟨e, rfl, h⟩)
  refine .bind processorState_fails fun p => .ite (.bind looks fun segment => ?_) (.pure _)
  exact .ite (.pure _) fun _ => .inr ⟨offset, rfl⟩

/-! ## Frames -/

/-- Whether an error is that of a frame that could not be pushed. -/
def FrameFailure (e : FatalError) (m : Machine) : Prop :=
  m.SegmentsUnreadable e ∨
    ∃ number offset, e = .doubleFault number (.segmentViolation .stack offset)

theorem pushAll_fails (words : List Word) : Fails (pushAll words) (TranslationFailure .stack) := by
  induction words with
  | nil => exact .pure _
  | cons word words ih =>
    have pushes : Fails (push word) (TranslationFailure .stack) := by
      refine .bind processorState_fails fun p => .bind (translate_fails .stack _) fun a => ?_
      exact .bind (fun _ => trivial) fun _ => modifyProcessor_fails
    exact .bind pushes fun _ => ih

theorem pushFrame_fails (number : Word) (words : List Word) :
    Fails (pushFrame number words) FrameFailure := by
  refine .adapt ((pushAll_fails words).imp ?_)
  rintro _ m (⟨e, rfl, unreadable⟩ | ⟨offset, rfl⟩)
  · exact .inl unreadable
  · exact .inr ⟨number, offset, rfl⟩

/-! ## Leaving and delivering -/

/-- Leaving a guest fails for want of a row or of room for the frame. -/
theorem leaveFor_fails (fits : m.GuestsFit) {slot : Word} (guest : m.processor.guest = some slot)
    (number : Word) (reason : TrapReason) (resumeIp : Word) (extra : List Word) :
    (leaveFor number reason resumeIp extra).Ends m (fun _ _ => True)
      (fun e m' => m'.RowFailure e ∨ FrameFailure e m') := by
  have moved : (m.goto resumeIp).GuestsFit := fits.congr rfl rfl
  unfold Action.Ends
  rw [leaveFor_eq guest]
  refine Action.Ends.bind (saveSlot_fits moved slot) (fun _ m₁ fits₁ => ?_) fun _ _ h => .inl h.2
  refine .bind (leaveGuest_fits fits₁) (fun _ m₂ _ => ?_) fun _ _ h => .inl h.2
  exact ((pushFrame_fails _ _).imp fun _ _ h => .inr h) m₂

theorem raiseInterrupt_fails (host : m.processor.inGuest = false) {number : Word}
    (known : number ≤ Interrupt.last) (returnIp : Word) (extra : List Word) :
    (raiseInterrupt number returnIp extra).Ends m (fun _ _ => True) FrameFailure :=
  raiseInterrupt_ends_of_host host (fun unknown => absurd known (UInt32.not_le.mpr unknown))
    (pushFrame_fails _ _ m)

/-- In flat memory there is always room for a frame. -/
theorem raiseInterrupt_of_flat (flat : m.processor.isSegmented = false)
    (host : m.processor.inGuest = false) {number : Word} (known : number ≤ Interrupt.last)
    (returnIp : Word) (extra : List Word) :
    (raiseInterrupt number returnIp extra).Ends m (fun _ _ => True) (fun _ _ => False) := by
  have settled : m.Settled := by simp [Settled, flat]
  refine raiseInterrupt_ends_of_host host
    (fun unknown => absurd known (UInt32.not_le.mpr unknown)) ?_
  refine (pushFrame_ends settled number _).imp (fun _ _ _ => trivial) ?_
  rintro e m' ⟨-, offset, -, missed⟩
  simp [reaches, flat] at missed

/-! ## Executing -/

/-- An instruction fails fatally if the segment table cannot be read, or if it enters a guest whose
row cannot be had. -/
theorem executeAt_fails (fits : m.GuestsFit) (ip : Word) :
    (executeAt ip).Ends m (fun _ _ => True) (fun x m' => ∀ e, x = .fatal e →
      m'.SegmentsUnreadable e ∨ m'.RowFailure e ∧ m.processor.inGuest = false ∧
        ∃ i, (prepare ip).outcome m = .ok i ∧ i.opcode = .vmResume) := by
  obtain ⟨-, e, unreadable, failed⟩ | ⟨m₀, settles, settled, prepares, same⟩ :=
    executeAt_settle m ip
  · refine .of_error failed ?_
    rintro _ ⟨⟩
    exact .inl unreadable
  have fits₀ : m₀.GuestsFit := by
    cases settles with
    | refl => exact fits
    | read segments => exact fits.congr rfl rfl
  unfold Action.Ends
  rw [same]
  refine Action.Ends.imp (executeAt_ends settled ip) (fun _ _ _ => trivial) ?_
  rintro x m' (⟨-, f, rfl⟩ | ⟨i, m₁, prepared, opcode, host, change, failed⟩) e eq
  · cases eq
  · have fits₁ : m₁.GuestsFit := fits₀.congr change.guests (by rw [change.processor])
    refine .inr ⟨((performResume_fits fits₁ i).error failed).fatal e eq, ?_, i, ?_, opcode⟩
    · rwa [settles.processor] at host
    · unfold Action.outcome at prepared ⊢
      rwa [prepares]

/-! ## Steps -/

/-- What a step can fail with, and why: the machine before the step, the error, and the machine
that is left. -/
inductive Failure (sink : Sink) (m : Machine) : FatalError → Machine → Prop
  /-- A row of the segment table has a defect. -/
  | malformed {m' : Machine} (row : Nat) (reason : String)
      (unreadable : m'.SegmentsUnreadable
        (.malformedTable .segment m'.processor.segmentTable row reason)) :
      Failure sink m (.malformedTable .segment m'.processor.segmentTable row reason) m'
  /-- A table runs past the last address. -/
  | pastEnd {m' : Machine}
      (unreadable : m'.SegmentsUnreadable (.memory (.addressOutOfBounds 0x100000000)) ∨
        m'.GuestsUnreadable (.memory (.addressOutOfBounds 0x100000000))) :
      Failure sink m (.memory (.addressOutOfBounds 0x100000000)) m'
  /-- The guest table lacks a row that is needed to enter a guest or to leave one. -/
  | unknownSlot {m' : Machine} (slot : Word) (switches : m.Resumes ∨ m.Exits) :
      Failure sink m (.unknownGuestSlot slot) m'
  /-- The stack has no room for a frame. -/
  | doubleFault {m' : Machine} (number offset : Word) :
      Failure sink m (.doubleFault number (.segmentViolation .stack offset)) m'
  /-- The sink refuses the byte that is printed. -/
  | console {m' : Machine} (byte : UInt8) (text : String) (prints : m.printed? = some byte)
      (refuses : sink byte = .error text) : Failure sink m (.console text) m'

namespace Failure

theorem of_segments (unreadable : m'.SegmentsUnreadable e) : Failure sink m e m' := by
  rcases Memory.segmentTable_eq_error unreadable.2 with rfl | ⟨row, reason, rfl⟩
  · exact .pastEnd (.inl unreadable)
  · exact .malformed row reason unreadable

theorem of_frame (failed : FrameFailure e m') : Failure sink m e m' := by
  rcases failed with unreadable | ⟨number, offset, rfl⟩
  · exact .of_segments unreadable
  · exact .doubleFault number offset

theorem of_row (failed : m'.RowFailure e) (switches : m.Resumes ∨ m.Exits) :
    Failure sink m e m' := by
  rcases failed with unreadable | ⟨slot, rfl⟩
  · obtain rfl := Memory.guestTable_eq_error unreadable.2
    exact .pastEnd (.inr unreadable)
  · exact .unknownSlot slot switches

/-- Stopping the machine does not change why it failed. -/
theorem stop (failure : Failure sink m e m') :
    Failure sink m e { m' with status := .error } := by
  cases failure with
  | malformed row reason unreadable =>
    exact @malformed sink m { m' with status := .error } row reason unreadable
  | pastEnd unreadable => exact .pastEnd unreadable
  | unknownSlot slot switches => exact .unknownSlot slot switches
  | doubleFault number offset => exact .doubleFault number offset
  | console byte text prints refuses => exact .console byte text prints refuses

theorem isDefect_eq_false (failure : Failure sink m e m') : e.isDefect = false := by
  cases failure <;> rfl

end Failure

theorem conclude_fails {x : Action FatalError Unit} {m₁ : Machine}
    (fails : x.Ends m₁ (fun _ _ => True) (Failure sink m)) :
    (conclude x).Ends m₁ (fun _ _ => True) (Failure sink m) := by
  refine (conclude_ends fails).imp (fun _ _ _ => trivial) ?_
  rintro e _ ⟨m', failure, rfl⟩
  exact failure.stop

theorem leaveFor_failure {m₁ : Machine} {slot : Word} (fits : m₁.GuestsFit)
    (guest : m₁.processor.guest = some slot) (exits : m.Exits) (number : Word)
    (reason : TrapReason) (resumeIp : Word) (extra : List Word) :
    (leaveFor number reason resumeIp extra).Ends m₁ (fun _ _ => True) (Failure sink m) := by
  refine (leaveFor_fails fits guest _ _ _ _).imp (fun _ _ _ => trivial) ?_
  rintro e m' (row | frame)
  · exact .of_row row (.inr exits)
  · exact .of_frame frame

theorem raiseInterrupt_failure {m₁ : Machine} {number : Word} (fits : m₁.GuestsFit)
    (known : number ≤ Interrupt.last) (exits : m₁.processor.inGuest = true → m.Exits)
    (returnIp : Word) (extra : List Word) :
    (raiseInterrupt number returnIp extra).Ends m₁ (fun _ _ => True) (Failure sink m) := by
  cases inside : m₁.processor.inGuest with
  | true =>
    have guest := Processor.guest_of_inGuest inside
    unfold Action.Ends
    rw [raiseInterrupt_of_guest guest known]
    exact leaveFor_failure fits guest (exits inside) _ _ _ _
  | false =>
    exact (raiseInterrupt_fails inside known returnIp extra).imp (fun _ _ _ => trivial)
      fun _ _ h => .of_frame h

/-- A trap only comes from a guest, so there is one to leave. -/
theorem deliverFault_failure {m₁ : Machine} {f : Fault} (fits : m₁.GuestsFit)
    (trap : (Exception.fault f).IsTrap → m₁.processor.inGuest = true)
    (exits : m₁.processor.inGuest = true → m.Exits) (ip : Word) :
    (deliverFault ip f).Ends m₁ (fun _ _ => True) (Failure sink m) := by
  obtain ⟨reason, resumeIp, extra, rfl, eq⟩ | ⟨number, returnIp, extra, known, eq⟩ :=
    deliverFault_cases ip f
  · have inside := trap trivial
    exact leaveFor_failure fits (Processor.guest_of_inGuest inside) (exits inside) _ _ _ _
  · rw [eq]
    exact raiseInterrupt_failure fits known exits returnIp extra

/-- A fault does not change the mode. -/
theorem inGuest_of_fault {ip : Word} {f : Fault} (faulted : executeAt ip m = .error (.fault f) m') :
    m'.processor.inGuest = m.processor.inGuest := by
  rcases (executeAt_aborts ip).error faulted ⟨f, rfl⟩ with same | ⟨i, frame, -, -, same⟩
  · rw [same.processor]
  · rw [same.processor]
    rfl

theorem step_fails (sink : Sink) (fits : m.GuestsFit) :
    step.Ends m (fun _ _ => True) (Failure sink m) := by
  have begun : m.begun.GuestsFit := (keeps_begun m).fits fits
  have executes := (executeAt_fails begun m.processor.ip).and (executeAt_fits begun m.processor.ip)
  unfold Action.Ends
  cases step_cases m with
  | idle stopped eq =>
    rw [eq]
    trivial
  | timer running fires eq =>
    rw [eq]
    refine conclude_fails (raiseInterrupt_failure begun (by decide) (fun inside => ?_) _ _)
    exact ⟨running, (inGuest_begun m).symm.trans inside, .inl fires⟩
  | ok m₁ running quiet executed eq =>
    rw [eq]
    trivial
  | fatal e m₁ running quiet executed eq =>
    rw [eq]
    refine Failure.stop ?_
    obtain unreadable | ⟨row, host, i, prepared, opcode⟩ := (executes.error executed).1 e rfl
    · exact .of_segments unreadable
    · rw [inGuest_begun] at host
      exact .of_row row (.inl ⟨running, host, quiet, i, prepared, opcode⟩)
  | fault f m₁ running quiet executed eq =>
    obtain ⟨-, fits₁, trap⟩ := executes.error executed
    have mode := inGuest_of_fault executed
    rw [eq]
    refine conclude_fails (deliverFault_failure fits₁ ?_ (fun inside => ?_) _)
    · rwa [mode]
    · refine ⟨running, ?_, .inr ⟨f, by simp [Action.outcome, executed]⟩⟩
      rw [← inGuest_begun, ← mode, inside]

/-- A step of the host in flat memory does not fail, unless it enters a guest. -/
theorem step_of_flat (fits : m.GuestsFit) (flat : m.processor.isSegmented = false)
    (host : m.processor.inGuest = false) (noResume : ¬m.Resumes) :
    step.Ends m (fun _ _ => True) (fun _ _ => False) := by
  have flat' : m.begun.processor.isSegmented = false := by
    rw [processor_begun]
    exact flat
  have host' : m.begun.processor.inGuest = false := (inGuest_begun m).trans host
  have settled : m.begun.Settled := by simp [Settled, flat']
  have concludes {x : Action FatalError Unit} {m₁ : Machine}
      (sure : x.Ends m₁ (fun _ _ => True) (fun _ _ => False)) :
      (conclude x).Ends m₁ (fun _ _ => True) (fun _ _ => False) := by
    refine (conclude_ends sure).imp (fun _ _ _ => trivial) ?_
    rintro e _ ⟨m', h, -⟩
    exact h
  unfold Action.Ends
  cases step_cases m with
  | idle stopped eq =>
    rw [eq]
    trivial
  | timer running fires eq =>
    rw [eq]
    exact concludes (raiseInterrupt_of_flat flat' host' (by decide) _ _)
  | ok m₁ running quiet executed eq =>
    rw [eq]
    trivial
  | fatal e m₁ running quiet executed eq =>
    obtain ⟨-, f, faulted⟩ | ⟨i, -, prepared, opcode, -⟩ :=
      (executeAt_ends settled m.processor.ip).error executed
    · cases faulted
    · exact absurd ⟨running, host, quiet, i, prepared, opcode⟩ noResume
  | fault f m₁ running quiet executed eq =>
    obtain ⟨change, -⟩ | ⟨i, -, prepared, opcode, -⟩ :=
      (executeAt_ends settled m.processor.ip).error executed
    · have trap := ((executeAt_fits ((keeps_begun m).fits fits) m.processor.ip).error executed).2
      have flat₁ : m₁.processor.isSegmented = false := by
        rw [change.processor]
        exact flat'
      have host₁ : m₁.processor.inGuest = false := change.inGuest.trans host'
      rw [eq]
      obtain ⟨reason, resumeIp, extra, rfl, -⟩ | ⟨number, returnIp, extra, known, raises⟩ :=
        deliverFault_cases m.processor.ip f
      · simp [trap trivial] at host'
      · rw [raises]
        exact concludes (raiseInterrupt_of_flat flat₁ host₁ known returnIp extra)
    · exact absurd ⟨running, host, quiet, i, prepared, opcode⟩ noResume

/-- Fatal errors are confined: a step of a machine that can be reached fails only as `Failure`
lists, and in flat memory a step of the host that enters no guest does not fail at all. -/
theorem fatal_errors_confined (reachable : Reachable m) :
    (∀ sink e m', stepTo sink m = .error e m' →
      Failure sink m e m' ∧ e.isDefect = false) ∧
    (m.processor.isSegmented = false → m.processor.inGuest = false → ¬m.Resumes →
      ∃ running, step.outcome m = .ok running) := by
  have fits := reachable.guestsFit
  constructor
  · intro sink e m' failed
    have failure : Failure sink m e m' := by
      obtain same | ⟨byte, text, prints, refuses, refused⟩ := stepTo_cases sink m
      · exact (step_fails sink fits).error (same ▸ failed)
      · rw [refused] at failed
        cases failed
        exact .console byte text prints refuses
    exact ⟨failure, failure.isDefect_eq_false⟩
  · intro flat host noResume
    have sure := step_of_flat fits flat host noResume
    cases stepped : step m with
    | ok running m' => exact ⟨running, by simp [Action.outcome, stepped]⟩
    | error e m' => exact (sure.error stepped).elim

/-- The first step of the program that edits its table does not fail.  The fourth one fails for a row
that the table lacks. -/
theorem fatal_errors_confined_editingHost :
    Reachable editingHost ∧ (∃ running, step.outcome editingHost = .ok running) ∧
      Reachable (afterSteps 3 editingHost) ∧
      ∃ m', stepTo .buffer (afterSteps 3 editingHost) = .error (.unknownGuestSlot 1) m' ∧
        Failure .buffer (afterSteps 3 editingHost) (.unknownGuestSlot 1) m' := by
  have loaded : Reachable editingHost :=
    .apply (.setMemory (Memory.empty.place 0 editingProgram)) .initial
  have moves : ((prepare 0).outcome editingHost.begun).toOption.map (·.opcode) = some .mov := by
    decide +kernel
  have noResume : ¬editingHost.Resumes := by
    rintro ⟨-, -, -, i, prepared, opcode⟩
    have prepared : (prepare 0).outcome editingHost.begun = .ok i := prepared
    rw [prepared] at moves
    simp [Except.toOption, opcode] at moves
  have stops : step.outcome (afterSteps 3 editingHost) = .error (.unknownGuestSlot 1) := by
    decide +kernel
  have failed := Action.eq_error_of_outcome stops
  rw [← stepTo_buffer] at failed
  exact ⟨loaded, (fatal_errors_confined loaded).2 (by decide) (by decide) noResume,
    loaded.afterSteps 3, _, failed, ((fatal_errors_confined (loaded.afterSteps 3)).1 _ _ _ failed).1⟩

end Machine
end WordMachine
