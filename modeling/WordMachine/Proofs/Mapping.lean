import WordMachine.Proofs.Step

/-!
# Mappings

What an address space reaches depends on whether there is a segment table, on
the rows that are kept of it and on one selector.  Two machines that agree on
these have the `SameMapping` of the space, and then they reach the same offsets
of it and place the general registers in the same cells.

A machine whose table still has to be read finds what it finds on the machine
`mapped`, on which the table is read if it can be.  No work on a machine notices
the difference (`translate_mapped`, `executeAt_mapped`), so what a machine finds
is stated of `mapped`.  A step executes its instruction on the machine that is
`ready`, which has begun the step and has its table read.  A step of the host
does not notice whether the table was read before it began (`step_mapped`).
-/

namespace WordMachine.Machine

variable {m m' m₁ m₂ : Machine} {space : AddressSpace}

/-! ## The same mapping -/

/-- Whether two machines find the same in an address space. -/
structure SameMapping (space : AddressSpace) (m m' : Machine) : Prop where
  segmented : m'.processor.isSegmented = m.processor.isSegmented
  segments : m'.segments = m.segments
  selector : m'.processor.selector space = m.processor.selector space

namespace SameMapping

theorem refl (space : AddressSpace) (m : Machine) : SameMapping space m m := ⟨rfl, rfl, rfl⟩

theorem trans (h : SameMapping space m m₁) (h₁ : SameMapping space m₁ m₂) :
    SameMapping space m m₂ :=
  ⟨h₁.segmented.trans h.segmented, h₁.segments.trans h.segments, h₁.selector.trans h.selector⟩

theorem of_localChange (h : LocalChange m m') (space : AddressSpace) : SameMapping space m m' where
  segmented := by
    rw [h.processor]
    rfl
  segments := h.segments
  selector := by
    rw [h.processor]
    cases space <;> rfl

theorem settled (h : SameMapping space m m') (settled : m.Settled) : m'.Settled := by
  unfold Settled at *
  rwa [h.segmented, h.segments]

theorem segment? (h : SameMapping space m m') : m'.segment? space = m.segment? space := by
  unfold Machine.segment? keptSegments
  rw [h.segmented, h.segments, h.selector]

theorem reaches (h : SameMapping space m m') (offset : Word) :
    m'.reaches space offset = m.reaches space offset := by
  unfold Machine.reaches
  rw [h.segmented, h.segment?]

theorem registerCell? (h : SameMapping .register m m') (index : Nat) :
    m'.registerCell? index = m.registerCell? index := by
  unfold Machine.registerCell?
  rw [h.segmented, h.segment?]

end SameMapping

/-! ## The segment table read -/

/-- The machine with its segment table read, if it can be. -/
def mapped (m : Machine) : Machine := segmentRows.after m

theorem mapped_of_settled (settled : m.Settled) : m.mapped = m :=
  Action.after_of_ok (segmentRows_eq settled)

/-- The table is read, or cannot be and then nothing happens. -/
theorem mapped_cases (m : Machine) :
    (∃ e, segmentRows m = .error e m ∧ m.mapped = m) ∨
      m.Settles m.mapped ∧ m.mapped.Settled ∧ segmentRows m = segmentRows m.mapped := by
  by_cases settled : m.Settled
  · rw [mapped_of_settled settled]
    exact .inr ⟨.refl, settled, rfl⟩
  obtain ⟨segmented, stale⟩ := not_settled_iff.mp settled
  have read := segmentRows_of_stale segmented stale
  cases parsed : m.memory.segmentTable m.processor.segmentTable with
  | error e =>
    rw [parsed] at read
    exact .inl ⟨e, read, Action.after_of_error read⟩
  | ok rows =>
    rw [parsed] at read
    rw [mapped, Action.after_of_ok read, read]
    refine .inr ⟨.read _ settled, fun _ => rfl, ?_⟩
    simp [segmentRows, segmented, TableCache.rows]

theorem segmentRows_mapped (m : Machine) : segmentRows m = segmentRows m.mapped := by
  rcases mapped_cases m with ⟨e, -, same⟩ | ⟨-, -, same⟩
  · rw [same]
  · exact same

/-- Reading the table changes nothing but what is kept of it. -/
theorem mapped_eq (m : Machine) : m.mapped = { m with segments := m.mapped.segments } := by
  rcases mapped_cases m with ⟨e, -, same⟩ | ⟨settles, -, -⟩
  · rw [same]
  · generalize m.mapped = m₀ at settles
    cases settles <;> rfl

theorem processor_mapped (m : Machine) : m.mapped.processor = m.processor := by
  rw [mapped_eq]

theorem memory_mapped (m : Machine) : m.mapped.memory = m.memory := by
  rw [mapped_eq]

theorem isRunning_mapped (m : Machine) : m.mapped.isRunning = m.isRunning := by
  rw [mapped_eq]
  rfl

/-- What is kept of the table depends on the table and on what was kept of it. -/
theorem segments_mapped_congr (table : m'.processor.segmentTable = m.processor.segmentTable)
    (segments : m'.segments = m.segments) (memory : m'.memory = m.memory) :
    m'.mapped.segments = m.mapped.segments := by
  have kept (m : Machine) : m.mapped.segments = if m.processor.isSegmented then
      (m.segments.rows fun _ => m.memory.segmentTable m.processor.segmentTable).toOption.elim
        m.segments Prod.snd
      else m.segments := by
    unfold mapped Action.after segmentRows
    by_cases segmented : m.processor.isSegmented = true
    · rw [if_pos segmented, if_pos segmented]
      cases m.segments.rows fun _ => m.memory.segmentTable m.processor.segmentTable <;> rfl
    · rw [if_neg segmented, if_neg segmented]
  have segmented : m'.processor.isSegmented = m.processor.isSegmented := by
    unfold Processor.isSegmented
    rw [table]
  rw [kept, kept, segmented, table, segments, memory]

/-! ## No work notices the difference -/

theorem segmentOf_mapped (m : Machine) (space : AddressSpace) :
    segmentOf space m = segmentOf space m.mapped := by
  have rows := Action.bind_congr (segmentRows_mapped m) fun rows =>
    (pure (rows[(m.processor.selector space).toNat]?.filter (·.kind = space.kind)) :
      Action FatalError (Option Segment))
  have read : segmentOf space m.mapped = (segmentRows >>= fun rows =>
      pure (rows[(m.mapped.processor.selector space).toNat]?.filter
        (·.kind = space.kind)) : Action FatalError (Option Segment)) m.mapped := rfl
  rw [read, processor_mapped]
  exact rows

theorem mapped_of_flat (flat : m.processor.isSegmented = false) : m.mapped = m :=
  mapped_of_settled fun segmented => by rw [flat] at segmented; cases segmented

theorem translate_mapped (m : Machine) (space : AddressSpace) (offset : Word) :
    translate space offset m = translate space offset m.mapped := by
  cases segmented : m.processor.isSegmented with
  | false => rw [mapped_of_flat segmented]
  | true =>
    exact translate_congr (segmentOf_mapped m space) (processor_mapped m).symm segmented offset

theorem outcome_translate (settled : m.mapped.Settled) (space : AddressSpace) (offset : Word) :
    (translate space offset).outcome m =
      if m.mapped.reaches space offset then .ok offset
      else .error (.fault (.segmentViolation space.kind offset)) := by
  unfold Action.outcome
  rw [translate_mapped, translate_eq settled]
  by_cases reached : m.mapped.reaches space offset = true
  · rw [if_pos reached, if_pos reached]
  · rw [if_neg reached, if_neg reached]

theorem registerAddress_mapped (m : Machine) {index : Nat} (small : index < registerCount) :
    registerAddress index m = registerAddress index m.mapped := by
  cases segmented : m.processor.isSegmented with
  | false => rw [mapped_of_flat segmented]
  | true =>
    have exists_register : ¬registerCount ≤ index := by omega
    unfold registerAddress
    rw [if_neg exists_register]
    show (if m.processor.isSegmented then _ else _ : Action Exception Word) m =
      (if m.mapped.processor.isSegmented then _ else _ : Action Exception Word) m.mapped
    rw [processor_mapped, segmented, if_pos rfl]
    exact Action.bind_congr (Action.lift_congr (segmentOf_mapped m .register)) _

theorem readRegister_mapped (m : Machine) {index : Nat} (small : index < registerCount) :
    readRegister index m = readRegister index m.mapped :=
  Action.bind_congr (registerAddress_mapped m small) _

theorem fetchInstruction_mapped (m : Machine) (ip : Word) :
    fetchInstruction ip m = fetchInstruction ip m.mapped :=
  Action.bind_congr (Action.bind_congr (translate_mapped m .code ip) _) _

theorem prepare_mapped (m : Machine) (ip : Word) : prepare ip m = prepare ip m.mapped :=
  Action.bind_congr (fetchInstruction_mapped m ip) _

theorem executeAt_mapped (m : Machine) (ip : Word) : executeAt ip m = executeAt ip m.mapped :=
  Action.bind_congr (prepare_mapped m ip) _

theorem push_mapped (m : Machine) (v : Word) : push v m = push v m.mapped := by
  have starts : push v m.mapped =
      (translate .stack (m.mapped.processor.sp - 1) >>= fun address => do
      writeCell address v
      modifyProcessor fun p => { p with sp := m.mapped.processor.sp - 1 } :
        Action Exception Unit) m.mapped := rfl
  rw [starts, processor_mapped]
  exact Action.bind_congr (translate_mapped m .stack _) _

theorem pushFrame_mapped (m : Machine) (number : Word) {words : List Word} (some_word : words ≠ []) :
    pushFrame number words m = pushFrame number words m.mapped := by
  cases words with
  | nil => exact absurd rfl some_word
  | cons word words => exact Action.adapt_congr (Action.bind_congr (push_mapped m word) _)

/-- In the host an interrupt begins with its frame. -/
theorem raiseInterrupt_mapped (host : m.processor.inGuest = false) {number : Word}
    (known : number ≤ Interrupt.last) (returnIp : Word) (extra : List Word) :
    raiseInterrupt number returnIp extra m = raiseInterrupt number returnIp extra m.mapped := by
  rw [raiseInterrupt_eq_of_host host known,
    raiseInterrupt_eq_of_host (by rw [processor_mapped, host]) known]
  exact Action.bind_congr (pushFrame_mapped m number (by simp)) _

/-- A machine that cannot read its table fails at the first translation. -/
theorem settled_mapped_or (m : Machine) :
    m.mapped.Settled ∨ ∃ e, ∀ space offset, translate space offset m = .error (.fatal e) m := by
  rcases mapped_cases m with ⟨e, failed, -⟩ | ⟨-, settled, -⟩
  · exact .inr ⟨e, translate_of_unreadable failed⟩
  · exact .inl settled

theorem settled_mapped_or_prepare (m : Machine) (ip : Word) :
    m.mapped.Settled ∨ ∃ e, prepare ip m = .error (.fatal e) m := by
  rcases settled_mapped_or m with settled | ⟨e, failed⟩
  · exact .inl settled
  refine .inr ⟨e, ?_⟩
  have fetches : fetchInstruction ip m = .error (.fatal e) m :=
    Action.bind_of_error (Action.bind_of_error (failed .code ip) _) _
  exact Action.bind_of_error fetches _

/-! ## Steps -/

/-- The machine on which the next step executes its instruction. -/
def ready (m : Machine) : Machine := m.begun.mapped

theorem processor_ready (m : Machine) : m.ready.processor = m.begun.processor :=
  processor_mapped m.begun

theorem inGuest_ready (m : Machine) : m.ready.processor.inGuest = m.processor.inGuest := by
  rw [processor_ready, inGuest_begun]

theorem memory_ready (m : Machine) : m.ready.memory = m.memory := memory_mapped m.begun

theorem sameMapping_ready (m : Machine) (space : AddressSpace) :
    SameMapping space m.mapped m.ready := by
  have processor := processor_begun m
  have table : m.begun.processor.segmentTable = m.processor.segmentTable := by rw [processor]
  refine ⟨?_, segments_mapped_congr table rfl rfl, ?_⟩
  · rw [processor_ready, processor_mapped, processor]
    rfl
  · rw [processor_ready, processor_mapped, processor]
    cases space <;> rfl

theorem executeAt_begun (m : Machine) (ip : Word) : executeAt ip m.begun = executeAt ip m.ready :=
  executeAt_mapped m.begun ip

theorem timerFires_mapped (m : Machine) : m.mapped.timerFires = m.timerFires := by
  unfold timerFires
  rw [processor_mapped]

/-- The table can as well be read before the step begins. -/
theorem begun_mapped (m : Machine) : m.mapped.begun = m.ready := by
  have table : m.begun.processor.segmentTable = m.processor.segmentTable := by
    rw [processor_begun]
  have segments : m.ready.segments = m.mapped.segments := segments_mapped_congr table rfl rfl
  have starts : m.mapped.begun = { m.begun with segments := m.mapped.segments } := by
    unfold begun
    rw [timerFires_mapped, mapped_eq]
  rw [starts, ← segments]
  exact (mapped_eq m.begun).symm

/-- Before a step of the host does anything else, it finds an address.  So it comes to the same if
the segment table was read before. -/
theorem step_mapped (running : m.isRunning = true) (host : m.processor.inGuest = false) :
    step m = step m.mapped := by
  have running' : m.mapped.isRunning = true := (isRunning_mapped m).trans running
  have fires' := timerFires_mapped m
  cases fires : m.timerFires with
  | true =>
    have raises : raiseInterrupt Interrupt.timer m.processor.ip [] m.begun =
        raiseInterrupt Interrupt.timer m.processor.ip [] m.ready :=
      raiseInterrupt_mapped ((inGuest_begun m).trans host) (by decide) _ _
    rw [step_of_timer running fires, step_of_timer running' (fires'.trans fires), processor_mapped,
      begun_mapped]
    exact conclude_congr raises
  | false =>
    rw [step_of_not_timer running fires, step_of_not_timer running' (fires'.trans fires),
      processor_mapped, begun_mapped]
    refine conclude_congr ?_
    rw [executeAndDeliver_eq, executeAndDeliver_eq, executeAt_begun]

end WordMachine.Machine
