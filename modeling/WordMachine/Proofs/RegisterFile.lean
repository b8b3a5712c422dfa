import WordMachine.Proofs.Looking
import WordMachine.Proofs.Pervasive
import WordMachine.Proofs.StackSteps
import WordMachine.Proofs.StackWords

/-!
# The register file

A register segment has exactly one word for each general register, so where one
register has a cell, all of them have, and these cells are the segment.  Without
a segment table the cells are always there.  `FileAt` says where they begin.

An instruction finds cells of registers several times: for its operands, for what
it does, and for writing its result.  Between these it changes nothing that the
cells depend on (`fileAt_compositional`), so `FileAt` holds from the first access
to the last.  Only a write to a control register and the entry into a guest may
change it, and they come when there is nothing more to find.
-/

namespace WordMachine.Machine

variable {m m' m'' : Machine} {first : Word} {i j : Nat}

/-! ## Where the registers are -/

/-- Whether the cells of the general registers are known, and begin at an address. -/
def FileAt (first : Word) (m : Machine) : Prop :=
  m.Settled ∧ ∀ j < registerCount, m.registerCell? j = some (first + UInt32.ofNat j)

theorem FileAt.found (h : FileAt first m) (small : j < registerCount) :
    registerAddress j m = .ok (first + UInt32.ofNat j) m :=
  registerAddress_of_cell h.1 small (h.2 j small)

/-- The cells depend on the table and the selector of registers alone. -/
theorem FileAt.of_sameMapping (same : SameMapping .register m m') (h : FileAt first m) :
    FileAt first m' :=
  ⟨same.settled h.1, fun j small => (same.registerCell? j).trans (h.2 j small)⟩

/-- If one register has a cell, all have, one after the other. -/
theorem fileAt_of_registerCell? {a : Word} (settled : m.Settled)
    (found : m.registerCell? i = some a) :
    ∃ first, FileAt first m ∧ a = first + UInt32.ofNat i := by
  unfold registerCell? at found
  cases segmented : m.processor.isSegmented with
  | false =>
    refine ⟨flatRegisterBase, ⟨settled, fun j _ => ?_⟩, ?_⟩
    · simp [registerCell?, segmented]
    · simpa [segmented] using found.symm
  | true =>
    simp only [segmented, if_true, Option.map_eq_some_iff] at found
    obtain ⟨s, selected, rfl⟩ := found
    refine ⟨s.start, ⟨settled, fun j _ => ?_⟩, rfl⟩
    simp [registerCell?, segmented, selected]

theorem fileAt_of_registerAddress {a : Word} (small : i < registerCount)
    (found : registerAddress i m = .ok a m') :
    m' = m.mapped ∧ ∃ first, FileAt first m' ∧ a = first + UInt32.ofNat i := by
  have looked : m' = m.mapped := (registerAddress_looks small m).ok found
  subst looked
  refine ⟨rfl, ?_⟩
  rcases mapped_cases m with ⟨e, failed, -⟩ | ⟨-, settled, -⟩
  · rw [registerAddress_of_unreadable failed small] at found
    cases found
  · rw [registerAddress_mapped m small, registerAddress_eq settled small] at found
    split at found
    next a' cell =>
      injection found with same
      exact fileAt_of_registerCell? settled (cell.trans (congrArg some same))
    next => cases found

/-! ## The cells -/

/-- Different registers have different cells. -/
theorem cells_distinct {j k : Nat} (small : j < registerCount) (small' : k < registerCount)
    (same : first + UInt32.ofNat j = first + UInt32.ofNat k) : j = k :=
  have addresses : registerCount < Word.count := by decide
  Word.add_ofNat_inj (Nat.lt_trans small addresses) (Nat.lt_trans small' addresses) same

/-- A register segment is the cells of its registers. -/
theorem contains_iff_cell {s : Segment} (kind : s.kind = .register) (b : Word) :
    s.contains b.toNat = true ↔ ∃ j < registerCount, b = s.start + UInt32.ofNat j := by
  have size := s.register_size kind
  simp only [Segment.contains, decide_eq_true_eq]
  constructor
  · rintro ⟨above, below⟩
    have small : b.toNat - s.start.toNat < registerCount := by
      simp only [Segment.registerSize, registerCount] at size ⊢
      omega
    refine ⟨b.toNat - s.start.toNat, small, UInt32.toNat_inj.mp ?_⟩
    rw [(toNat_registerCell kind small).1]
    omega
  · rintro ⟨j, small, rfl⟩
    obtain ⟨stands, inside⟩ := toNat_registerCell kind small
    omega

/-- A segment that is found is of the right kind. -/
theorem kind_of_segmentOf {space : AddressSpace} {s : Segment}
    (found : segmentOf space m = .ok (some s) m') : s.kind = space.kind := by
  rcases mapped_cases m with ⟨e, failed, -⟩ | ⟨-, settled, -⟩
  · rw [segmentOf_of_unreadable failed] at found
    cases found
  · rw [segmentOf_mapped, segmentOf_eq settled] at found
    injection found with found
    exact kind_of_segment? found

/-- With a segment table, the cells are the segment that is selected for registers. -/
theorem FileAt.segment (h : FileAt first m.mapped) (segmented : m.processor.isSegmented = true) :
    ∃ s, segmentOf .register m = .ok (some s) m.mapped ∧ s.kind = .register ∧
      ∀ b : Word, s.contains b.toNat = true ↔
        ∃ j < registerCount, b = first + UInt32.ofNat j := by
  have cell := h.2 0 (by decide)
  have segmented' : m.mapped.processor.isSegmented = true := by rwa [processor_mapped]
  simp only [registerCell?, segmented', if_true, Option.map_eq_some_iff] at cell
  obtain ⟨s, selected, starts⟩ := cell
  have starts : s.start = first := (UInt32.add_left_inj _).mp starts
  have kind := kind_of_segment? selected
  refine ⟨s, ?_, kind, fun b => ?_⟩
  · rw [segmentOf_mapped, segmentOf_eq h.1, selected]
  · rw [← starts]
    exact contains_iff_cell kind b

theorem FileAt.flat (h : FileAt first m) (flat : m.processor.isSegmented = false) :
    first = flatRegisterBase := by
  have cell := h.2 0 (by decide)
  simp only [registerCell?, flat, Bool.false_eq_true, if_false, Option.some.injEq] at cell
  exact ((UInt32.add_left_inj _).mp cell).symm

/-! ## Writing a register -/

theorem FileAt.setCell (h : FileAt first m) (a v : Word) : FileAt first (m.setCell a v) :=
  h.of_sameMapping ⟨rfl, rfl, rfl⟩

theorem FileAt.value (h : FileAt first m) (small : j < registerCount) :
    readRegister j m = .ok (m.memory.get (first + UInt32.ofNat j)) m :=
  Action.bind_of_ok (h.found small) _

/-- A write to a register changes its cell, and no other register. -/
structure WritesCell (m m' : Machine) (i : Nat) (cell v : Word) : Prop where
  written : writeRegister i v m = .ok () { m' with memory := m'.memory.set cell v }
  readBack : readRegister i { m' with memory := m'.memory.set cell v } =
    .ok v { m' with memory := m'.memory.set cell v }
  others : ∀ j < registerCount, j ≠ i →
    (readRegister j).outcome { m' with memory := m'.memory.set cell v } =
      (readRegister j).outcome m
  elsewhere : ∀ b ≠ cell, (m'.memory.set cell v).cell? b = m.memory.cell? b

theorem FileAt.writesCell (h : FileAt first m.mapped) (small : i < registerCount) (v : Word) :
    WritesCell m m.mapped i (first + UInt32.ofNat i) v := by
  have found : registerAddress i m = .ok (first + UInt32.ofNat i) m.mapped :=
    (registerAddress_mapped m small).trans (h.found small)
  have after : FileAt first { m.mapped with
      memory := m.mapped.memory.set (first + UInt32.ofNat i) v } := h.setCell _ v
  refine ⟨Action.bind_of_ok found _, ?_, fun j small' other => ?_, fun b other => ?_⟩
  · rw [after.value small, Memory.get_set_self]
  · have apart : first + UInt32.ofNat i ≠ first + UInt32.ofNat j :=
      fun same => other (cells_distinct small small' same).symm
    unfold Action.outcome
    rw [after.value small', readRegister_mapped m small', h.value small',
      Memory.get_set_of_ne _ _ apart]
  · rw [Memory.cell?_set_of_ne _ _ other.symm, memory_mapped]

/-! ## The rest of the instruction -/

/-- Work that is put together from the parts of instructions, resolving control registers and
remembering the instruction included.  That is all an instruction does up to its last access to a
register: what it leaves out is writing a control register and entering a guest. -/
def IsWork {α : Type} (x : Action Exception α) : Prop :=
  ∀ P : ∀ α : Type, Action Exception α → Prop, Compositional P →
    (∀ ip position register, P _ (resolveControl ip position register)) →
    (∀ i, P Unit (modify fun m => { m with lastInstruction := some i })) → P α x

theorem isWork_prepare (ip : Word) : IsWork (prepare ip) :=
  fun _ parts control remembers => parts.prepare remembers (control ip)

theorem isWork_resolve (ip : Word) (position : Nat) (cursor : Word) (d : OperandDescriptor) :
    IsWork (resolve ip position cursor d) :=
  fun _ parts control _ => parts.resolve (fun _ => control ip position d.register) cursor

theorem isWork_push (v : Word) : IsWork (push v) := fun _ parts _ _ => parts.push v

theorem isWork_pop : IsWork pop := fun _ parts _ _ => parts.pop

theorem isWork_writeRegister (index : Nat) (v : Word) : IsWork (writeRegister index v) :=
  fun _ parts _ _ => parts.writeRegister index v

theorem isWork_perform {i : ResolvedInstruction} (noResume : i.opcode ≠ .vmResume) :
    IsWork (perform i) :=
  fun _ parts _ _ => parts.perform noResume

theorem isWork_writeResult {i : ResolvedInstruction} (general : ∀ r, i.target? ≠ some (.control r))
    (o : Outcome) : IsWork (writeResult i o) :=
  fun _ parts _ _ => parts.writeResult (fun r _ target => absurd target (general r)) o

theorem FileAt.of_hidden (same : m'.hidden = m.hidden) (h : FileAt first m) : FileAt first m' := by
  simp only [hidden, Hidden.mk.injEq] at same
  obtain ⟨segments, -, table, -, selector, -⟩ := same
  refine h.of_sameMapping ⟨?_, segments, congrFun selector _⟩
  unfold Processor.isSegmented
  rw [table]

/-- No part of an instruction moves the cells of the registers. -/
theorem fileAt_compositional (first : Word) :
    Compositional fun _ x => x.Preserves (FileAt first) where
  pure := .pure
  throw _ := .throw _
  bind := .bind
  look _ holds m h := holds m.processor m h
  readCell _ _ h := h
  change c m h := h.of_hidden (c.hidden_apply m)
  translate {space} _ offset m h := by
    have eq := translate_eq h.1 space offset
    split at eq
    · exact .of_ok eq h
    · exact .of_error eq h
  registerAddress index m h := by
    by_cases small : index < registerCount
    · exact .of_ok (h.found small) h
    · exact .of_error (registerAddress_of_ge (Nat.not_lt.mp small) m) h
  hostOnly reason resumeIp extra m h := by
    cases guest : m.processor.inGuest with
    | true => exact .of_error (hostOnly_of_guest guest reason resumeIp extra) h
    | false => exact .of_ok (hostOnly_of_host guest reason resumeIp extra) h

theorem resolveControl_preserves {R : Machine → Prop} (ip : Word) (position : Nat)
    (register : Fin 32) : (resolveControl ip position register).Preserves R := by
  unfold resolveControl
  split
  · exact .throw _
  · exact fun m h => Action.Preserves.ite (.throw _) (.pure _) m h

/-- Work of an instruction leaves the cells of the registers where they are. -/
theorem FileAt.of_work {α : Type} {x : Action Exception α} {b : α} (h : FileAt first m)
    (work : IsWork x) (ran : x m = .ok b m') : FileAt first m' :=
  have preserves := work _ (fileAt_compositional first)
    (fun ip position register => resolveControl_preserves ip position register) fun _ _ h => h
  (preserves m h).ok ran

/-- A register that is not found is outside of what is mapped, or the table cannot be read. -/
theorem registerAddress_fails {e : Exception} (small : j < registerCount)
    (failed : registerAddress j m = .error e m') :
    (∃ e', segmentRows m = .error e' m ∧ e = .fatal e') ∨
      e = .fault (.segmentViolation .register (UInt32.ofNat j)) := by
  rcases mapped_cases m with ⟨e', unreadable, -⟩ | ⟨-, settled, -⟩
  · rw [registerAddress_of_unreadable unreadable small] at failed
    injection failed with same
    exact .inl ⟨e', unreadable, same.symm⟩
  · rw [registerAddress_mapped m small, registerAddress_eq settled small] at failed
    split at failed
    · cases failed
    · injection failed with same
      exact .inr same.symm

/-- An instruction whose result is for a register was prepared with the value of that register as
its first operand. -/
theorem register?_of_prepare {ip : Word} {r : ResolvedInstruction} {t : Nat}
    (settled : m.Settled) (prepared : prepare ip m = .ok r m')
    (target : r.target? = some (.register t)) :
    t < registerCount ∧ m.register? t = some r.first ∧ SameMapping .register m m' := by
  obtain ⟨⟨d, rfl⟩, valid⟩ := (prepare_ends settled ip).ok prepared
  have outcome : (prepare ip).outcome m = .ok r := by simp only [Action.outcome, prepared]
  obtain ⟨d', made⟩ := preparedFrom_of_prepare settled outcome
  obtain ⟨o, operand, place⟩ := Option.bind_eq_some_iff.mp target
  have first : r.first = o.value := by simp [ResolvedInstruction.first, operand]
  obtain ⟨descriptor, describes⟩ : ∃ descriptor, d'.operands[0]? = some descriptor := by
    have some_operand : 0 < r.operands.length := (List.getElem?_eq_some_iff.mp operand).1
    exact ⟨_, List.getElem?_eq_getElem (by rw [← made.count]; exact some_operand)⟩
  have stands := (made.operands 0 descriptor o describes operand).standsFor
  have value : m.register? t = some o.value := by
    unfold StandsFor at stands
    cases kind : descriptor.kind <;> simp only [kind] at stands
    case register =>
      obtain ⟨v, value, rfl⟩ := stands
      injection place with place
      injection place with place
      rw [← place]
      exact value
    case immediate =>
      rw [stands] at place
      cases place
    case control =>
      obtain ⟨-, c, -, rfl⟩ := stands
      cases place
    all_goals
      obtain ⟨a, -, rfl⟩ := stands
      cases place
  exact ⟨valid.canReceive _ target, first ▸ value, rfl, rfl, rfl⟩

/-- The result for a register goes to the cell that its value was read from. -/
theorem writeResult_of_register {ip v : Word} {r : ResolvedInstruction} {o : Outcome} {t : Nat}
    (prepared : prepare ip m = .ok r m') (target : r.target? = some (.register t))
    (performed : perform r m' = .ok o m'') (result : o.result = some v) :
    ∃ cell, (registerAddress t).outcome m = .ok cell ∧ r.first = m.memory.get cell ∧
      writeResult r o m'' = .ok () (m''.setCell cell v) := by
  have settled : m.mapped.Settled := by
    rcases settled_mapped_or_prepare m ip with settled | ⟨e, failed⟩
    · exact settled
    · rw [failed] at prepared
      cases prepared
  have noResume : r.opcode ≠ .vmResume := by
    intro resume
    rw [perform_of_resume resume] at performed
    rw [performResume_outcome performed] at result
    cases result
  rw [prepare_mapped] at prepared
  obtain ⟨small, value, same⟩ := register?_of_prepare settled prepared target
  obtain ⟨cell, found, read⟩ := Option.map_eq_some_iff.mp value
  obtain ⟨first, file, rfl⟩ := fileAt_of_registerCell? settled found
  -- The file is still where it was when the result is written.
  have later : FileAt first m'' :=
    (file.of_sameMapping same).of_work (isWork_perform noResume) performed
  refine ⟨_, ?_, by rw [← read, memory_mapped], ?_⟩
  · unfold Action.outcome
    rw [registerAddress_mapped m small, file.found small]
  · simp only [writeResult, result, target]
    exact Action.bind_of_ok (later.found small) _

/-! ## The whole file -/

/-- What follows from finding the cell of one register. -/
structure FileFound (m m' : Machine) (first : Word) : Prop where
  /-- Finding it at most reads the segment table. -/
  looks : m' = { m with segments := m'.segments }
  addresses : ∀ j < registerCount, registerAddress j m = .ok (first + UInt32.ofNat j) m'
  distinct : ∀ j < registerCount, ∀ k < registerCount,
    first + UInt32.ofNat j = first + UInt32.ofNat k → j = k
  /-- The cells are the segment that is selected. -/
  segment : m.processor.isSegmented = true →
    ∃ s, segmentOf .register m = .ok (some s) m' ∧ s.kind = .register ∧
      ∀ b : Word, s.contains b.toNat = true ↔ ∃ j < registerCount, b = first + UInt32.ofNat j
  flat : m.processor.isSegmented = false → first = flatRegisterBase
  writes : ∀ j < registerCount, ∀ v, WritesCell m m' j (first + UInt32.ofNat j) v
  /-- Whatever the instruction does in between, the next access finds the same. -/
  later {α : Type} {x : Action Exception α} {b : α} {m'' : Machine} (work : IsWork x)
    (ran : x m' = .ok b m'') :
    ∀ j < registerCount, registerAddress j m'' = .ok (first + UInt32.ofNat j) m''

theorem FileAt.fileFound (h : FileAt first m.mapped) : FileFound m m.mapped first where
  looks := mapped_eq m
  addresses j small := (registerAddress_mapped m small).trans (h.found small)
  distinct _ small _ small' := cells_distinct small small'
  segment := h.segment
  flat flat := h.flat (by rwa [processor_mapped])
  writes _ small v := h.writesCell small v
  later work ran _ small := (h.of_work work ran).found small

/-- The general registers have cells of their own.  Where one of them is found, all of them are, in
cells that are pairwise distinct and make up the selected segment.  The sum that a cell address is
always is an address, so nothing but the table or a missing segment can be in the way.  A write
changes the one register and its cell.  And between two accesses of an instruction the cells do not
move, so the second one finds the same, and a result is written to the cell that the operand was
read from. -/
theorem registers_have_cells (m : Machine) :
    (∀ s m', segmentOf .register m = .ok (some s) m' → ∀ j < registerCount,
      Word.ofAddress? (s.start.toUInt64 + UInt64.ofNat j) = some (s.start + UInt32.ofNat j)) ∧
    (∀ j < registerCount, ∀ e m', registerAddress j m = .error e m' →
      (∃ e', segmentRows m = .error e' m ∧ e = .fatal e') ∨
        e = .fault (.segmentViolation .register (UInt32.ofNat j))) ∧
    (∀ i < registerCount, ∀ a m', registerAddress i m = .ok a m' →
      ∃ first, a = first + UInt32.ofNat i ∧ FileFound m m' first) ∧
    (∀ i < registerCount, ∀ v m'', writeRegister i v m = .ok () m'' →
      ∃ m' first, FileFound m m' first ∧
        m'' = { m' with memory := m'.memory.set (first + UInt32.ofNat i) v }) ∧
    (∀ ip r o t v m₁ m₂, prepare ip m = .ok r m₁ → r.target? = some (.register t) →
      perform r m₁ = .ok o m₂ → o.result = some v →
      ∃ cell, (registerAddress t).outcome m = .ok cell ∧ r.first = m.memory.get cell ∧
        writeResult r o m₂ = .ok () { m₂ with memory := m₂.memory.set cell v }) ∧
    -- The parts between two accesses of an instruction are work.
    (∀ ip, IsWork (prepare ip)) ∧
    (∀ ip position cursor d, IsWork (resolve ip position cursor d)) ∧
    (∀ v, IsWork (push v)) ∧ IsWork pop ∧ (∀ index v, IsWork (writeRegister index v)) ∧
    (∀ r, r.opcode ≠ .vmResume → IsWork (perform r)) ∧
    (∀ r o, (∀ c, r.target? ≠ some (.control c)) → IsWork (writeResult r o)) := by
  refine ⟨fun s m' found j small => ofAddress?_registerCell (kind_of_segmentOf found) small,
    fun j small e m' failed => registerAddress_fails small failed, fun i small a m' found => ?_,
    fun i small v m'' written => ?_, fun ip r o t v m₁ m₂ => writeResult_of_register,
    isWork_prepare, isWork_resolve, isWork_push, isWork_pop, isWork_writeRegister,
    fun r => isWork_perform, fun r o general => isWork_writeResult general o⟩
  · obtain ⟨rfl, first, file, cell⟩ := fileAt_of_registerAddress small found
    exact ⟨first, cell, file.fileFound⟩
  · cases found : registerAddress i m with
    | error e m' =>
      have fails : writeRegister i v m = .error e m' := Action.bind_of_error found _
      rw [fails] at written
      cases written
    | ok a m' =>
      obtain ⟨rfl, first, file, rfl⟩ := fileAt_of_registerAddress small found
      have writes := (file.writesCell small v).written
      rw [written] at writes
      injection writes with _ same
      exact ⟨m.mapped, first, file.fileFound, same⟩

/-- The host has its register file in the last segment, and still has it there after a push. -/
theorem registers_have_cells_pushingHost :
    (registerAddress 3).outcome pushingHost = .ok 0x303 ∧
      (∀ j < registerCount,
        (registerAddress j).outcome pushingHost = .ok (0x300 + UInt32.ofNat j)) ∧
      ∃ m', push 5 pushingHost = .ok () m' ∧ registerAddress 30 m' = .ok 0x31E m' := by
  have third : (registerAddress 3).outcome pushingHost = .ok 0x303 := by decide +kernel
  have pushed : (push 5).outcome pushingHost = .ok () := by decide +kernel
  have cell : pushingHost.registerCell? 3 = some 0x303 := by decide +kernel
  have settled : (registerAddress 3).after pushingHost = pushingHost :=
    Action.after_of_ok (registerAddress_of_cell (by decide) (by decide) cell)
  have found := Action.eq_ok_of_outcome third
  rw [settled] at found
  obtain ⟨-, -, finds, -, -, -, -, work, -⟩ := registers_have_cells pushingHost
  obtain ⟨first, cell, file⟩ := finds 3 (by decide) _ _ found
  obtain rfl : first = 0x300 := (UInt32.add_left_inj (3 : UInt32)).mp cell.symm
  have ran := Action.eq_ok_of_outcome pushed
  refine ⟨third, fun j small => ?_, _, ran, file.later (work 5) ran 30 (by decide)⟩
  simp only [Action.outcome, file.addresses j small]

end WordMachine.Machine
