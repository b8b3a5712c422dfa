import WordMachine.Proofs.Aside
import WordMachine.Proofs.Mapping

/-!
# The segment table that is kept

A machine that keeps a copy of its segment table goes on with it until it writes
the register of the table.  What is written over the table in memory is not seen
before that.

`TranslatesOn` says of all the translations in some work what holds of the
machines they are made on.  While the copy is kept (`KeepsSegments`), every
translation is against it (`AgainstTable`).  Work that keeps the copy and makes
all its translations against it `Adheres` to it.  The parts of instructions
adhere (`adheres`), and the rest takes no notice of the copy, except for a `MOV`
to the register of the segment table (`WritesSegmentTable`).  So a step that is
no such `MOV` adheres (`cycle_adheres`), and so does a run of such steps.

After such a `MOV` no copy is kept, and the next translation reads the table as
it lies in memory at that time (`ReadsNext`).
-/

namespace WordMachine.Machine

variable {ε ε' α β : Type} {m m' : Machine} {address v : Word} {table : List Segment}
  {i : ResolvedInstruction}

/-! ## Translations -/

/-- Whether translations on a machine are against a table: offsets are looked up in the segments that
it lists, and registers lie in the segment that it lists for them. -/
structure AgainstTable (table : List Segment) (m : Machine) : Prop where
  covered {space : AddressSpace} {offset : Word}
    (covers : Covers table (m.processor.selector space) space.kind offset) :
    translate space offset m = .ok offset m
  missed {space : AddressSpace} {offset : Word}
    (misses : ¬Covers table (m.processor.selector space) space.kind offset) :
    translate space offset m = .error (.fault (.segmentViolation space.kind offset)) m
  placed {index : Nat} (small : index < registerCount) {s : Segment}
    (selected : table[m.processor.rs.toNat]? = some s) (kind : s.kind = .register) :
    registerAddress index m = .ok (s.start + UInt32.ofNat index) m
  unplaced {index : Nat} (small : index < registerCount)
    (none : ∀ s, table[m.processor.rs.toNat]? = some s → s.kind ≠ .register) :
    registerAddress index m =
      .error (.fault (.segmentViolation .register (UInt32.ofNat index))) m

/-- Work in which every translation is made on a machine of which `R` holds.  It is put together from
translations, and from work that comes to the same whatever is kept of the segment table. -/
inductive TranslatesOn (R : Machine → Prop) : {ε α : Type} → Action ε α → Machine → Prop
  | translate {m : Machine} (space : AddressSpace) (offset : Word) (holds : R m) :
    TranslatesOn R (Machine.translate space offset) m
  | registerAddress {m : Machine} (index : Nat) (holds : R m) :
    TranslatesOn R (Machine.registerAddress index) m
  | unaware {ε α : Type} {x : Action ε α} {m : Machine}
    (same : ∀ segments, x (withSegments segments m) =
      Action.changed (withSegments segments) (x m)) : TranslatesOn R x m
  | bind {ε α β : Type} {x : Action ε α} {f : α → Action ε β} {m : Machine}
    (first : TranslatesOn R x m)
    (next : ∀ a m', x m = .ok a m' → TranslatesOn R (f a) m') : TranslatesOn R (x >>= f) m
  | adapt {ε ε' α : Type} {x : Action ε α} {m : Machine} (f : ε → ε')
    (first : TranslatesOn R x m) : TranslatesOn R (x.adaptExcept f) m
  | attempt {ε ε' α : Type} {x : Action ε α} {m : Machine} (first : TranslatesOn R x m) :
    TranslatesOn R (x.attempt : Action ε' (Except ε α)) m

/-! ## Keeping the copy -/

/-- Whether a segment table is installed at an address, and these rows are kept of it. -/
structure KeepsSegments (address : Word) (table : List Segment) (m : Machine) : Prop where
  segmentTable : m.processor.segmentTable = address
  installed : address ≠ noTable
  kept : m.segments.snapshot = some table

namespace KeepsSegments

variable (h : KeepsSegments address table m)
include h

theorem isSegmented : m.processor.isSegmented = true := by
  simp [Processor.isSegmented, h.segmentTable, h.installed]

theorem settled : m.Settled := fun _ => by simp [TableCache.isStale, h.kept]

theorem congr (segmentTable : m'.processor.segmentTable = m.processor.segmentTable)
    (segments : m'.segments = m.segments) : KeepsSegments address table m' :=
  ⟨segmentTable.trans h.segmentTable, h.installed, by rw [segments, h.kept]⟩

theorem against : AgainstTable table m := by
  have reaches (space : AddressSpace) (offset : Word) :=
    reaches_iff_covers h.isSegmented h.kept space offset
  have found : m.segment? .register =
      table[m.processor.rs.toNat]?.filter (·.kind = .register) := by
    simp only [segment?, keptSegments, h.isSegmented, h.kept, if_true, Option.getD_some]
    rfl
  constructor
  · intro space offset covers
    rw [translate_eq h.settled, if_pos ((reaches space offset).mpr covers)]
  · intro space offset misses
    rw [translate_eq h.settled, if_neg (mt (reaches space offset).mp misses)]
  · intro index small s selected kind
    rw [registerAddress_eq h.settled small, registerCell?, if_pos h.isSegmented, found, selected]
    simp [Option.filter, kind]
  · intro index small none
    rw [registerAddress_eq h.settled small, registerCell?, if_pos h.isSegmented, found]
    cases selected : table[m.processor.rs.toNat]? with
    | none => rfl
    | some s => simp [Option.filter, none s selected]

end KeepsSegments

/-! ## Work that adheres to the copy -/

/-- Work that keeps the copy of the segment table, with every translation against it. -/
structure Adheres (address : Word) (table : List Segment) (x : Action ε α) (m : Machine) : Prop where
  translates : TranslatesOn (AgainstTable table) x m
  keeps : x.Ends m (fun _ => KeepsSegments address table) (fun _ => KeepsSegments address table)

namespace Adheres

variable {x : Action ε α}

/-- Work that takes no notice of the copy and leaves the register of the table alone. -/
theorem unaware (h : KeepsSegments address table m)
    (same : ∀ segments, x.Commutes (withSegments segments))
    (stays : x.Preserves fun m => m.processor.segmentTable = address) :
    Adheres address table x m where
  translates := .unaware fun segments => same segments m
  keeps := by
    have here : x m = Action.changed (withSegments m.segments) (x m) := same m.segments m
    have stays := stays m h.segmentTable
    unfold Action.Ends at *
    rw [here]
    cases ran : x m with
    | ok a m' =>
      rw [ran] at stays
      exact ⟨stays, h.installed, h.kept⟩
    | error e m' =>
      rw [ran] at stays
      exact ⟨stays, h.installed, h.kept⟩

theorem pure (h : KeepsSegments address table m) (a : α) :
    Adheres address table (Pure.pure a : Action ε α) m :=
  .unaware h (fun _ => .pure a) (.pure a)

theorem throw (h : KeepsSegments address table m) (e : ε) :
    Adheres address table (MonadExcept.throw e : Action ε α) m :=
  .unaware h (fun _ => .throw e) (.throw e)

theorem bind {f : α → Action ε β} (first : Adheres address table x m)
    (next : ∀ a m', x m = .ok a m' → KeepsSegments address table m' →
      Adheres address table (f a) m') : Adheres address table (x >>= f) m where
  translates := .bind first.translates fun a m' ran => (next a m' ran (first.keeps.ok ran)).translates
  keeps := by
    unfold Action.Ends
    cases ran : x m with
    | ok a m' =>
      rw [Action.bind_of_ok ran]
      exact (next a m' ran (first.keeps.ok ran)).keeps
    | error e m' =>
      rw [Action.bind_of_error ran]
      exact first.keeps.error ran

theorem ite {c : Prop} [Decidable c] {y : Action ε α} (pos : Adheres address table x m)
    (neg : Adheres address table y m) : Adheres address table (if c then x else y) m := by
  split
  · exact pos
  · exact neg

theorem adapt {f : ε → ε'} (first : Adheres address table x m) :
    Adheres address table (x.adaptExcept f) m :=
  ⟨.adapt f first.translates, .adapt first.keeps⟩

theorem attempt (first : Adheres address table x m) :
    Adheres address table (x.attempt : Action ε' (Except ε α)) m :=
  ⟨.attempt first.translates, .of_ok (Action.attempt_apply x m) first.keeps.after⟩

end Adheres

theorem processorState_adheres (h : KeepsSegments address table m) :
    Adheres address table (processorState : Action ε Processor) m :=
  .unaware h (fun _ _ => rfl) fun _ stays => stays

theorem modifyProcessor_adheres (h : KeepsSegments address table m) {f : Processor → Processor}
    (spared : ∀ p, (f p).segmentTable = p.segmentTable) :
    Adheres address table (modifyProcessor f : Action ε Unit) m :=
  .unaware h (fun _ _ => rfl) fun m stays => (spared m.processor).trans stays

/-- The parts of instructions adhere to the copy. -/
theorem adheres (address : Word) (table : List Segment) :
    Compositional fun _ x => ∀ m, KeepsSegments address table m → Adheres address table x m where
  pure a m h := .pure h a
  throw _ m h := .throw h _
  bind first next m h := .bind (first m h) fun a m' _ h' => next a m' h'
  look _ holds m h := .bind (processorState_adheres h) fun p m' _ h' => holds p m' h'
  readCell a m h := .unaware h (fun _ _ => rfl) fun _ stays => stays
  change c m h := by
    refine .unaware h (fun segments => .update fun m => ?_) fun m stays => ?_
    · cases c <;> rfl
    · exact (congrArg Hidden.segmentTable (c.hidden_apply m)).trans stays
  translate {space} _ offset m h := by
    refine ⟨.translate space offset h.against, ?_⟩
    have eq := translate_eq h.settled space offset
    split at eq
    · exact .of_ok eq h
    · exact .of_error eq h
  registerAddress index m h := by
    refine ⟨.registerAddress index h.against, ?_⟩
    by_cases small : index < registerCount
    · unfold Action.Ends
      rw [registerAddress_eq h.settled small]
      cases m.registerCell? index <;> exact h
    · exact .of_error (registerAddress_of_ge (Nat.not_lt.mp small) m) h
  hostOnly reason resumeIp extra m h :=
    .bind (processorState_adheres h) fun p m' _ h' => .ite (.throw h' _) (.pure h' ())

/-! ## Switching -/

theorem pervasive_stays (address : Word) :
    Pervasive fun _ _ x => x.Preserves fun m => m.processor.segmentTable = address :=
  preserves_pervasive fun _ _ _ _ spared stays => spared.trans stays

theorem performResume_adheres (h : KeepsSegments address table m) (i : ResolvedInstruction) :
    Adheres address table (performResume i) m :=
  .unaware h (fun _ => pervasive_aside.performResume i) ((pervasive_stays address).performResume i)

theorem pushFrame_adheres (h : KeepsSegments address table m) (number : Word) (words : List Word) :
    Adheres address table (pushFrame number words) m :=
  .adapt ((adheres address table).pushAll words m h)

theorem leaveFor_adheres (h : KeepsSegments address table m) (number : Word) (reason : TrapReason)
    (resumeIp : Word) (extra : List Word) :
    Adheres address table (leaveFor number reason resumeIp extra) m := by
  refine .bind (processorState_adheres h) fun p m₁ _ h₁ => .ite ?_ (.throw h₁ _)
  refine .bind (modifyProcessor_adheres h₁ fun _ => rfl) fun _ m₂ _ h₂ => ?_
  have stays := pervasive_stays address
  refine .bind (.unaware h₂ (fun _ => pervasive_aside.savesSlot p.slot) (stays.savesSlot p.slot))
    fun _ m₃ _ h₃ => ?_
  refine .bind (.unaware h₃ (fun _ => pervasive_aside.leaveGuest) stays.leaveGuest)
    fun _ m₄ _ h₄ => ?_
  exact pushFrame_adheres h₄ _ _

theorem raiseInterrupt_adheres (h : KeepsSegments address table m) (number returnIp : Word)
    (extra : List Word) : Adheres address table (raiseInterrupt number returnIp extra) m := by
  have delivers (m : Machine) (h : KeepsSegments address table m) : Adheres address table (do
      if (← processorState).inGuest then leaveFor number (.ofInterrupt number) returnIp extra
      else
        pushFrame number (extra ++ [returnIp])
        modifyProcessor fun p => { p with ip := Interrupt.vector number } :
          Action FatalError Unit) m := by
    refine .bind (processorState_adheres h) fun p m₁ _ h₁ => .ite (leaveFor_adheres h₁ _ _ _ _) ?_
    exact .bind (pushFrame_adheres h₁ _ _) fun _ m₂ _ h₂ => modifyProcessor_adheres h₂ fun _ => rfl
  exact .ite (.bind (.throw h _) fun _ m₁ _ h₁ => delivers m₁ h₁) (delivers m h)

theorem deliverFault_adheres (h : KeepsSegments address table m) (ip : Word) (f : Fault) :
    Adheres address table (deliverFault ip f) m := by
  obtain ⟨reason, resumeIp, extra, -, eq⟩ | ⟨number, returnIp, extra, -, eq⟩ :=
    deliverFault_cases ip f
  · rw [eq]
    exact leaveFor_adheres h _ _ _ _
  · rw [eq]
    exact raiseInterrupt_adheres h _ _ _

/-! ## Steps -/

/-- Whether the next step executes a `MOV` of a value to the register of the segment table. -/
def WritesSegmentTable (m : Machine) (v : Word) : Prop :=
  m.isRunning = true ∧ m.timerFires = false ∧
    ∃ i, (prepare m.processor.ip).outcome m.begun = .ok i ∧ i.opcode = .mov ∧
      i.target? = some (.control .segmentTable) ∧ i.second = v

/-- An instruction that is no `MOV` to the register of the segment table adheres to the copy. -/
theorem executeAt_adheres (h : KeepsSegments address table m) {ip : Word}
    (spared : ∀ i, (prepare ip).outcome m = .ok i → i.opcode = .mov →
      i.target? ≠ some (.control .segmentTable)) : Adheres address table (executeAt ip) m := by
  have parts := adheres address table
  have prepares : Adheres address table (prepare ip) m := by
    refine parts.prepare
      (fun _ m h => .unaware h (fun _ => .update fun _ => rfl) fun _ stays => stays)
      (fun position register m h => ?_) m h
    refine .unaware h (fun _ => pervasive_aside.resolveControl ip position register)
      fun m stays => ?_
    refine Action.Ends.imp (resolveControl_reads ip position register) ?_ ?_
    all_goals
      rintro _ _ ⟨rfl, -⟩
      exact stays
  refine .bind prepares fun i m₁ prepared h₁ => ?_
  obtain ⟨-, valid⟩ := (prepare_ends h.settled ip).ok prepared
  have outcome : (prepare ip).outcome m = .ok i := by simp [Action.outcome, prepared]
  have performs : Adheres address table (perform i) m₁ := by
    by_cases opcode : i.opcode = .vmResume
    · rw [perform_of_resume opcode]
      exact performResume_adheres h₁ i
    · exact parts.perform opcode m₁ h₁
  refine .bind performs fun o m₂ _ h₂ => ?_
  refine .bind (parts.writeResult (fun r v target m h => ?_) o m₂ h₂) fun _ m₃ _ h₃ => ?_
  · have other : r ≠ .segmentTable := by
      rintro rfl
      exact spared i outcome (valid.eq_mov _ target) target
    refine .unaware h (fun _ => writeBack_aside other v) fun m stays => ?_
    show (m.setControl r v).processor.segmentTable = address
    rw [← stays]
    cases r <;> first | exact absurd rfl other | rfl
  · exact parts.follow i o.control m₃ h₃

/-- What a step does on a running machine adheres to the copy, unless it is a `MOV` to the register
of the segment table. -/
theorem cycle_adheres (h : KeepsSegments address table m) (running : m.isRunning = true)
    (spared : ∀ v, ¬m.WritesSegmentTable v) :
    Adheres address table cycle { m with cycles := m.cycles + 1 } := by
  have counted : KeepsSegments address table { m with cycles := m.cycles + 1 } := h.congr rfl rfl
  refine .bind (processorState_adheres counted) fun p m₁ looked h₁ => ?_
  obtain ⟨rfl, rfl⟩ : m.processor = p ∧ { m with cycles := m.cycles + 1 } = m₁ := by
    injection looked with same same'
    exact ⟨same, same'⟩
  split
  next fires =>
    exact .bind (modifyProcessor_adheres h₁ fun _ => rfl) fun _ m₂ _ h₂ =>
      raiseInterrupt_adheres h₂ _ _ _
  next quiet =>
    have quiet : m.timerFires = false := by simpa [timerFires] using quiet
    refine .bind (modifyProcessor_adheres h₁ segmentTable_tick) fun _ m₂ ticked h₂ => ?_
    obtain rfl : m.begun = m₂ := by
      injection ticked with _ same
      rw [← same, begun, quiet]
      rfl
    refine .bind (.attempt (executeAt_adheres h₂ fun i prepared opcode target =>
      spared i.second ⟨running, quiet, i, prepared, opcode, target, rfl⟩)) fun r m₃ _ h₃ => ?_
    split
    · exact .pure h₃ ()
    · exact .throw h₃ _
    · exact deliverFault_adheres h₃ _ _

theorem step_keepsSegments (h : KeepsSegments address table m)
    (spared : ∀ v, ¬m.WritesSegmentTable v) : KeepsSegments address table (step.after m) := by
  cases running : m.isRunning with
  | false =>
    rw [Action.after_of_ok (step_of_not_isRunning running)]
    exact h
  | true =>
    rw [Action.after_congr (step_of_running running)]
    exact after_conclude (cycle_adheres h running spared).keeps fun _ h => h.congr rfl rfl

theorem keepsSegments_afterSteps (h : KeepsSegments address table m) {n : Nat}
    (spared : ∀ k < n, ∀ v, ¬(afterSteps k m).WritesSegmentTable v) {k : Nat} (early : k ≤ n) :
    KeepsSegments address table (afterSteps k m) := by
  induction k with
  | zero => exact h
  | succ k ih => exact step_keepsSegments (ih (by omega)) (spared k early)

/-! ## Reading the table again -/

/-- Whether the machine keeps no copy of the segment table at an address, and the next translation
reads the table as it lies in memory. -/
structure ReadsNext (address : Word) (m : Machine) : Prop where
  segmentTable : m.processor.segmentTable = address
  stale : m.segments.isStale = true
  /-- A table that can be read is kept, and the translation is against it. -/
  found {table : List Segment} (parsed : m.memory.segmentTable address = .ok table) :
    (∀ space offset,
      translate space offset m = translate space offset (withSegments ⟨some table⟩ m)) ∧
    (∀ index < registerCount,
      registerAddress index m = registerAddress index (withSegments ⟨some table⟩ m)) ∧
    AgainstTable table (withSegments ⟨some table⟩ m) ∧
    step m = step (withSegments ⟨some table⟩ m)
  /-- A table that cannot be read fails the translation. -/
  failed {e : FatalError} (unreadable : m.memory.segmentTable address = .error e) :
    (∀ space offset, translate space offset m = .error (.fatal e) m) ∧
    (∀ index < registerCount, registerAddress index m = .error (.fatal e) m) ∧
    step m = .error e { m.begun with status := .error }

/-- A step of the host finds an address first, and fails if it cannot. -/
theorem step_of_unreadable {e : FatalError} (running : m.isRunning = true)
    (host : m.processor.inGuest = false)
    (failed : ∀ space offset, translate space offset m.begun = .error (.fatal e) m.begun) :
    step m = .error e { m.begun with status := .error } := by
  cases fires : m.timerFires with
  | true =>
    have pushes : push m.processor.ip m.begun = .error (.fatal e) m.begun :=
      Action.bind_of_error (failed .stack (m.begun.processor.sp - 1)) _
    have frames : pushFrame Interrupt.timer [m.processor.ip] m.begun = .error e m.begun := by
      have all : pushAll [m.processor.ip] m.begun = .error (.fatal e) m.begun :=
        Action.bind_of_error pushes _
      simp only [pushFrame, EStateM.adaptExcept, all]
    have raises : raiseInterrupt Interrupt.timer m.processor.ip [] m.begun =
        .error e m.begun := by
      rw [raiseInterrupt_eq_of_host ((inGuest_begun m).trans host) (by decide)]
      exact Action.bind_of_error frames _
    rw [step_of_timer running fires]
    simp only [conclude, raises]
  | false =>
    have fetches : fetchInstruction m.processor.ip m.begun = .error (.fatal e) m.begun :=
      Action.bind_of_error (Action.bind_of_error (failed .code m.processor.ip) _) _
    have prepares : prepare m.processor.ip m.begun = .error (.fatal e) m.begun :=
      Action.bind_of_error fetches _
    exact step_of_fatal running fires (Action.bind_of_error prepares _)

theorem readsNext (running : m.isRunning = true) (host : m.processor.inGuest = false)
    (installed : m.processor.segmentTable ≠ noTable) (stale : m.segments.isStale = true) :
    ReadsNext m.processor.segmentTable m := by
  have segmented : m.processor.isSegmented = true := by simp [Processor.isSegmented, installed]
  have forgotten : m.segments.snapshot = none := by simpa [TableCache.isStale] using stale
  have rows := segmentRows_of_stale segmented forgotten
  constructor
  · rfl
  · exact stale
  · intro table parsed
    have read : m.mapped = withSegments ⟨some table⟩ m := by
      rw [parsed] at rows
      exact Action.after_of_ok rows
    have keeps : KeepsSegments m.processor.segmentTable table (withSegments ⟨some table⟩ m) :=
      ⟨rfl, installed, rfl⟩
    refine ⟨fun space offset => ?_, fun index small => ?_, keeps.against, ?_⟩
    · rw [translate_mapped, read]
    · rw [registerAddress_mapped m small, read]
    · rw [step_mapped running host, read]
  · intro e unreadable
    have failed : segmentRows m = .error e m := by rw [rows, unreadable]
    have segmented' : m.begun.processor.isSegmented = true := by
      rw [processor_begun]
      exact segmented
    have begun : segmentRows m.begun = .error e m.begun := by
      have table : m.begun.memory.segmentTable m.begun.processor.segmentTable = .error e := by
        rw [processor_begun]
        exact unreadable
      rw [segmentRows_of_stale segmented' forgotten, table]
    exact ⟨translate_of_unreadable failed, fun _ => registerAddress_of_unreadable failed,
      step_of_unreadable running host (translate_of_unreadable begun)⟩

/-- A `MOV` to the register of the segment table writes it, and then no copy is kept. -/
theorem step_of_writesSegmentTable (writes : m.WritesSegmentTable v) :
    step m = .ok true (step.after m) ∧ (step.after m).isRunning = true ∧
      (step.after m).processor.inGuest = false ∧ (step.after m).processor.segmentTable = v ∧
      (step.after m).segments.isStale = true := by
  obtain ⟨running, quiet, i, prepared, opcode, target, rfl⟩ := writes
  have ran := Action.eq_ok_of_outcome prepared
  generalize (prepare m.processor.ip).after m.begun = m₁ at ran
  obtain ⟨-, e, -, failed⟩ | ⟨m₀, settles, settled, same⟩ := prepare_settle m.begun m.processor.ip
  · rw [failed] at ran
    cases ran
  obtain ⟨⟨d, rfl⟩, valid⟩ := (prepare_ends settled m.processor.ip).ok (same ▸ ran)
  have host : m₀.processor.inGuest = false := valid.canReceive _ target
  have performs : perform i = pure (.value i.second) := by simp [perform, opcode]
  have results : writeResult i (.value i.second) = writeBack i.second (.control .segmentTable) := by
    simp [writeResult, Outcome.value, target]
  have executed : executeAt m.processor.ip m.begun =
      .ok () (((m₀.remember d).setControl .segmentTable i.second).goto i.nextIp) := by
    refine (Action.bind_of_ok ran _).trans ?_
    rw [performs, pure_bind, results]
    rfl
  have status : m₀.status = m.status := settles.status
  have stepped := step_of_ok running quiet executed
  have stillRunning : (((m₀.remember d).setControl .segmentTable i.second).goto
      i.nextIp).isRunning = true := by
    show decide (m₀.status = .running) = true
    rw [status]
    exact running
  rw [stillRunning] at stepped
  rw [Action.after_of_ok stepped]
  exact ⟨stepped, stillRunning, host, rfl, rfl⟩

/-- What is written over the segment table takes effect only when its register is written.  Along a
run in which it is not, a machine that keeps a copy of the table goes on keeping it, and every
translation in every step is against it.  After a step that writes another address to it, the next
translation is against the table that then lies there in memory, whatever was written to memory
since. -/
theorem segment_table_snapshot :
    (∀ (m : Machine) (table : List Segment), m.processor.isSegmented = true →
      m.segments.snapshot = some table → ∀ n,
      (∀ k < n, ∀ v, ¬(afterSteps k m).WritesSegmentTable v) →
      (afterSteps n m).processor.segmentTable = m.processor.segmentTable ∧
        (afterSteps n m).segments.snapshot = some table ∧
        AgainstTable table (afterSteps n m) ∧
        ∀ k < n, (afterSteps k m).isRunning = true →
          TranslatesOn (AgainstTable table) cycle
            { afterSteps k m with cycles := (afterSteps k m).cycles + 1 }) ∧
    ∀ (m : Machine) (v : Word), m.WritesSegmentTable v → v ≠ noTable →
      step m = .ok true (step.after m) ∧
        ∀ memory, ReadsNext v { step.after m with memory } := by
  constructor
  · intro m table segmented kept n spared
    have keeps : KeepsSegments m.processor.segmentTable table m :=
      ⟨rfl, by simpa [Processor.isSegmented] using segmented, kept⟩
    have last := keepsSegments_afterSteps keeps spared (Nat.le_refl n)
    refine ⟨last.segmentTable, last.kept, last.against, fun k early running => ?_⟩
    have before := keepsSegments_afterSteps keeps spared (Nat.le_of_lt early)
    exact (cycle_adheres before running (spared k early)).translates
  · intro m v writes installed
    obtain ⟨stepped, running, host, rfl, stale⟩ := step_of_writesSegmentTable writes
    exact ⟨stepped, fun memory =>
      @readsNext { step.after m with memory } running host installed stale⟩

/-- A host whose segment table lies in its data segment.  It writes over the table, and then installs
another one. -/
def retablingHost : Machine :=
  { pushingHost with
    processor := { pushingHost.processor with segmentTable := 0x110 }
    memory := Memory.empty.place 0
      [Instruction.encode ⟨.mov, 0, [⟨.singleDs, Fin.last 31⟩, ⟨.immediate, Fin.last 31⟩]⟩, 0x110, 5,
        Instruction.encode ⟨.mov, 0, [controlOperand .segmentTable, ⟨.immediate, Fin.last 31⟩]⟩, 0x180] }

/-- The other table is read where it lies when it is needed, in a memory that was cleared since. -/
theorem segment_table_snapshot_retablingHost :
    retablingHost.processor.isSegmented = true ∧
      retablingHost.segments.snapshot = some sampleSegments ∧
      (∀ k < 1, ∀ v, ¬(afterSteps k retablingHost).WritesSegmentTable v) ∧
      (afterSteps 1 retablingHost).memory.get 0x110 = 5 ∧
      AgainstTable sampleSegments (afterSteps 1 retablingHost) ∧
      (afterSteps 1 retablingHost).WritesSegmentTable 0x180 ∧
      ReadsNext 0x180 { step.after (afterSteps 1 retablingHost) with memory := .empty } := by
  have segmented : retablingHost.processor.isSegmented = true := by decide
  have target : ((prepare 0).outcome retablingHost.begun).toOption.map (·.target?) =
      some (some (.cell 0x110)) := by decide +kernel
  have spared : ∀ k < 1, ∀ v, ¬(afterSteps k retablingHost).WritesSegmentTable v := by
    rintro k first v ⟨-, -, i, prepared, -, named, -⟩
    obtain rfl : k = 0 := by omega
    have prepared : (prepare 0).outcome retablingHost.begun = .ok i := prepared
    rw [prepared] at target
    simp [Except.toOption, named] at target
  have moves : (prepare (afterSteps 1 retablingHost).processor.ip).outcome
      (afterSteps 1 retablingHost).begun =
      .ok ⟨.mov, 3, 5, [⟨0x110, some (.control .segmentTable)⟩, ⟨0x180, none⟩]⟩ := by
    decide +kernel
  have writes : (afterSteps 1 retablingHost).WritesSegmentTable 0x180 :=
    ⟨by decide +kernel, by decide +kernel, _, moves, rfl, rfl, rfl⟩
  obtain ⟨keeps, reads⟩ := segment_table_snapshot
  obtain ⟨-, -, against, -⟩ := keeps retablingHost sampleSegments segmented rfl 1 spared
  exact ⟨segmented, rfl, spared, by decide +kernel, against, writes,
    (reads _ _ writes (by decide)).2 .empty⟩

end WordMachine.Machine
