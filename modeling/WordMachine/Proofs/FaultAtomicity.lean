import WordMachine.Proofs.Step

/-!
# Faults are atomic

An instruction that ends with a fault leaves no half of its work behind.  Its
reads come first, and once it has changed something nothing in it can fault any
more.  A push or a pop is the last step that may fault (`push_clean`,
`pop_clean`), a register that was read can be written (`writeRegister_sure`),
and so can the place of a result (`finish_sure`).  Entering a guest checks the
slot before it saves the host.

`LEAVE` is the exception.  It moves the stack pointer to the frame before it
pops, and the pop may fault.  `Aborted` lists all there is to leave behind, and
`executeAt_aborts` says that no instruction leaves more.  `untouched_of_fault`
is the result for all other instructions: but for the tables the machine keeps
and the instruction it decoded last, nothing has happened.
-/

namespace WordMachine.Machine

variable {α β : Type} {m m' : Machine} {i : ResolvedInstruction}

/-! ## Clean work -/

/-- Work that has done nothing if it ends with a fault. -/
def Clean (x : Action Exception α) (m : Machine) : Prop :=
  x.Ends m (fun _ _ => True) (fun e m' => e.IsFault → m' = m)

/-- Work that does not end with a fault. -/
def Sure (x : Action Exception α) (m : Machine) : Prop :=
  x.Ends m (fun _ _ => True) (fun e _ => ¬e.IsFault)

theorem Sure.bind {x : Action Exception α} {f : α → Action Exception β} (first : Sure x m)
    (next : ∀ a m', Sure (f a) m') : Sure (x >>= f) m :=
  Action.Ends.bind first (fun a m' _ => next a m') fun _ _ h => h

namespace Clean

variable {x : Action Exception α} {V : α → Prop} {F : Exception → Prop}

theorem pure (a : α) : Clean (Pure.pure a) m := True.intro

theorem throw (e : Exception) : Clean (MonadExcept.throw e : Action Exception α) m := fun _ => rfl

/-- Looking at the machine first is clean. -/
theorem bind_reads {f : α → Action Exception β} (first : x.Reads m V F)
    (next : ∀ a, V a → Clean (f a) m) : Clean (x >>= f) m :=
  first.bind_ends next fun _ _ _ => rfl

/-- Clean work may be followed by work that cannot fault. -/
theorem bind_sure {f : α → Action Exception β} {Q : α → Machine → Prop}
    {E : Exception → Machine → Prop} (first : Clean x m) (ends : x.Ends m Q E)
    (next : ∀ a m', Q a m' → Sure (f a) m') : Clean (x >>= f) m := by
  refine Action.Ends.bind (ends.and first) (fun a m' h => ?_) fun e m' h => h.2
  exact Action.Ends.imp (next a m' h.1) (fun _ _ h => h) fun _ _ noFault fault => absurd fault noFault

end Clean

/-! ## The stack and the registers -/

theorem push_clean (settled : m.Settled) (v : Word) : Clean (push v) m := by
  have eq := push_eq settled v
  split at eq
  next => exact .of_ok eq True.intro
  next => exact .of_error eq fun _ => rfl

theorem pop_clean (settled : m.Settled) : Clean pop m := by
  have eq := pop_eq settled
  split at eq
  next => exact .of_ok eq True.intro
  next => exact .of_error eq fun _ => rfl

theorem LocalChange.registerCell? (h : LocalChange m m') (index : Nat) :
    m'.registerCell? index = m.registerCell? index := by
  have processor := h.processor
  unfold Machine.registerCell? segment? keptSegments
  rw [h.segments, processor]
  rfl

/-- A register that has a cell can be written. -/
theorem writeRegister_sure (settled : m.Settled) {index : Nat} (small : index < registerCount)
    (cell : (m.registerCell? index).isSome = true) (v : Word) : Sure (writeRegister index v) m := by
  obtain ⟨a, found⟩ := Option.isSome_iff_exists.mp cell
  have address : registerAddress index m = .ok a m := by rw [registerAddress_eq settled small, found]
  exact .of_ok (Action.bind_of_ok address _) True.intro

theorem readRegister_reads_cell (settled : m.Settled) {index : Nat} (small : index < registerCount) :
    (readRegister index).Reads m (fun _ => (m.registerCell? index).isSome = true)
      Exception.IsFault := by
  refine (readRegister_reads settled small).imp (fun v value => ?_) fun _ h => h
  exact isSome_of_register? value

/-! ## Results -/

/-- Whether a general register that is to receive a result has a cell. -/
def HasCell (m : Machine) (target : Option WriteTarget) : Prop :=
  ∀ index, target = some (.register index) → (m.registerCell? index).isSome = true

theorem ResolvedAt.hasCell {cursor : Word} {d : OperandDescriptor} {o : ResolvedOperand}
    (h : m.ResolvedAt cursor d o) : m.HasCell o.target := by
  rintro index target
  have stands := h.standsFor
  unfold StandsFor at stands
  cases kind : d.kind <;> simp only [kind] at stands
  case register =>
    obtain ⟨v, value, rfl⟩ := stands
    cases target
    exact isSome_of_register? value
  case immediate =>
    rw [stands] at target
    cases target
  case control =>
    obtain ⟨-, r, -, rfl⟩ := stands
    cases target
  all_goals
    obtain ⟨a, -, rfl⟩ := stands
    cases target

theorem resolveAll_reads_cell (settled : m.Settled) (ip : Word) {classes : List OperandClass}
    {ds : List OperandDescriptor} (obey : Instruction.operandsObey classes ds = true)
    (position : Nat) (cursor : Word) :
    (resolveAll ip position cursor ds).Reads m (fun os => ∀ o ∈ os.1, m.HasCell o.target)
      Exception.IsFault := by
  refine (resolveAll_reads settled ip obey position cursor).imp ?_ fun _ h => h
  rintro ⟨os, _⟩ ⟨resolved, each, -⟩ o member
  obtain ⟨k, operand⟩ := List.mem_iff_getElem?.mp member
  obtain ⟨small, -⟩ := List.getElem?_eq_some_iff.mp operand
  have named := List.getElem?_eq_getElem (resolved.length_eq ▸ small : k < ds.length)
  exact (each k _ o named operand).hasCell

theorem prepare_hasCell (settled : m.Settled) (ip : Word) :
    (prepare ip).Ends m (fun i m' => m'.HasCell i.target?) (fun _ _ => True) := by
  refine .bind (fetchInstruction_ends settled ip) ?_ fun _ _ _ => True.intro
  rintro d _ ⟨rfl, decoded⟩
  refine (checkPrivilege_reads _ d).bind_ends (fun _ _ => ?_) fun _ _ => True.intro
  have settled' : (m.remember d).Settled := settled
  have obeys := Instruction.obeys_of_decode decoded
  refine (resolveAll_reads_cell settled' ip obeys 0 (ip + 1)).bind_ends (fun os cells => ?_)
    fun _ _ => True.intro
  refine .pure fun index target => ?_
  obtain ⟨o, first, target⟩ := Option.bind_eq_some_iff.mp target
  exact cells o (List.mem_of_getElem? first) index target

/-- Once an instruction was performed, nothing in it can fault. -/
theorem finish_sure (settled : m.Settled) (prepared : m.Prepared i) (cell : m.HasCell i.target?)
    {o : Outcome} (performed : Performed i m o m') :
    Sure (do writeResult i o; follow i o.control : Action Exception Unit) m' := by
  have goesOn (m : Machine) : Sure (follow i o.control) m := by
    cases o.control <;> exact True.intro
  have written : Sure (writeResult i o) m' := by
    unfold writeResult
    cases value : o.result with
    | none => exact True.intro
    | some v =>
      cases performed with
      | halt => cases value
      | effect effect result => simp [result] at value
      | plain change result =>
        obtain ⟨t, target⟩ := Option.isSome_iff_exists.mp (prepared.hasTarget (result v value).1)
        simp only [target]
        cases t with
        | register index =>
          refine writeRegister_sure (change.settled settled) (prepared.canReceive _ target) ?_ v
          rw [change.registerCell?]
          exact cell index target
        | cell a => exact True.intro
        | control r => exact True.intro
  exact written.bind fun _ m => goesOn m

/-! ## Performing -/

/-- What an instruction that ends with a fault leaves behind. -/
inductive Aborted (i : ResolvedInstruction) (m : Machine) : Machine → Prop
  /-- Nothing. -/
  | nothing : Aborted i m m
  /-- The guest table read. -/
  | read (guests : TableCache Context) : Aborted i m { m with guests }
  /-- For `LEAVE`, the stack pointer moved to the frame. -/
  | moved (frame : Word) (opcode : i.opcode = .leave) : Aborted i m (m.withSp frame)

theorem performEnter_clean (settled : m.Settled) : Clean (performEnter i) m := by
  refine .bind_reads (readRegister_reads_cell settled (by decide)) fun saved cell => ?_
  refine .bind_sure (push_clean settled saved) (push_ends settled saved) fun _ m₁ pushed => ?_
  have written : Sure (writeRegister framePointer m₁.processor.sp) m₁ :=
    writeRegister_sure (pushed.settled settled) (by decide) (by rwa [pushed.registerCell?]) _
  exact written.bind fun _ _ => True.intro

/-- `LEAVE` may leave the stack pointer moved. -/
theorem performLeave_aborts (settled : m.Settled) (opcode : i.opcode = .leave) :
    performLeave.Ends m (fun _ _ => True) (fun e m' => e.IsFault → Aborted i m m') := by
  refine (readRegister_reads_cell settled (by decide)).bind_ends (fun frame cell => ?_)
    fun _ _ _ => .nothing
  have moved : LocalChange m (m.withSp frame) := .withSp m frame
  -- The frame pointer was read, so it is only the pop that may fault after the move.
  have rest : Clean (do
      let saved ← pop
      writeRegister framePointer saved
      return Outcome.next : Action Exception Outcome) (m.withSp frame) := by
    refine .bind_sure (pop_clean (moved.settled settled)) (pop_ends (moved.settled settled))
      fun saved m₂ popped => ?_
    have change := moved.trans popped
    have written : Sure (writeRegister framePointer saved) m₂ :=
      writeRegister_sure (change.settled settled) (by decide) (by rwa [change.registerCell?]) _
    exact written.bind fun _ _ => True.intro
  refine Action.Ends.imp (m := m.withSp frame) rest (fun _ _ h => h) fun e m' same fault => ?_
  rw [same fault]
  exact .moved frame opcode

theorem performGetArgument_clean (settled : m.Settled) : Clean (performGetArgument i) m := by
  refine .bind_reads (readRegister_reads settled (by decide)) fun frame _ => ?_
  refine .bind_reads (translate_reads settled .stack (frame + 2 + i.second)) fun a _ => ?_
  exact .bind_reads (F := Exception.IsFault) (readCell_reads m a) fun _ _ => .pure _

theorem performBranch_clean (m : Machine) : Clean (performBranch i) m := by
  unfold performBranch
  cases Condition.ofOpcode? i.opcode with
  | none => exact .throw _
  | some c =>
    refine .bind_reads (F := Exception.IsFault) (processorState_reads m) fun _ _ => ?_
    split <;> exact .pure _

theorem performArithmetic_clean (m : Machine) : Clean (performArithmetic i) m := by
  unfold performArithmetic
  cases ArithmeticOp.ofOpcode? i.opcode with
  | none => exact .throw _
  | some a =>
    cases value : a.evaluate? i.first i.second with
    | none => simp only [value]; exact .throw _
    | some v => simp only [value]; exact .pure _

/-- Performing an instruction other than `LEAVE` and `VMRESUME` is clean. -/
theorem perform_clean (settled : m.Settled) (noLeave : i.opcode ≠ .leave)
    (noResume : i.opcode ≠ .vmResume) : Clean (perform i) m := by
  unfold perform
  cases opcode : i.opcode
  case add | sub | mul | div | mod | or | xor | and | not | shl | shr =>
    exact performArithmetic_clean m
  case jmp | jz | jnz | jgt | jge => exact performBranch_clean m
  case mov | nop => exact .pure _
  case halt => exact .bind_reads (hostOnly_reads m _ _ _) fun _ _ => .pure _
  case print => exact .bind_reads (hostOnly_reads m _ _ _) fun _ _ => True.intro
  case cmp => exact True.intro
  case call =>
    exact .bind_sure (push_clean settled _) (push_ends settled _) fun _ _ _ => True.intro
  case ret | reti =>
    exact .bind_sure (pop_clean settled) (pop_ends settled) fun _ _ _ => True.intro
  case retn => exact .bind_sure (pop_clean settled) (pop_ends settled) fun _ _ _ => True.intro
  case push =>
    exact .bind_sure (push_clean settled _) (push_ends settled _) fun _ _ _ => True.intro
  case pop => exact .bind_sure (pop_clean settled) (pop_ends settled) fun _ _ _ => True.intro
  case enter => exact performEnter_clean settled
  case leave => exact absurd opcode noLeave
  case getArgument => exact performGetArgument_clean settled
  case int => exact .throw _
  case vmResume => exact absurd opcode noResume
  case cli | sti => exact .bind_reads (hostOnly_reads m _ _ _) fun _ _ => True.intro

theorem perform_aborts (settled : m.Settled) :
    (perform i).Ends m (fun _ _ => True) (fun e m' => e.IsFault → Aborted i m m') := by
  by_cases leave : i.opcode = .leave
  · have performs : perform i = performLeave := by simp [perform, leave]
    rw [performs]
    exact performLeave_aborts settled leave
  by_cases resume : i.opcode = .vmResume
  · rw [perform_of_resume resume]
    refine (performResume_ends m i).imp (fun _ _ _ => True.intro) ?_
    rintro e m' (⟨-, guests, rfl⟩ | ⟨⟨e', rfl⟩, -⟩) ⟨f, fault⟩
    · exact .read guests
    · cases fault
  · refine Action.Ends.imp (perform_clean settled leave resume) (fun _ _ h => h) ?_
    intro e m' same fault
    rw [same fault]
    exact .nothing

/-! ## Executing -/

/-- Machines in the same state, with the same memory.  The tables they keep and the instructions
they decoded last may differ. -/
structure Untouched (m m' : Machine) : Prop where
  processor : m'.processor = m.processor
  memory : m'.memory = m.memory
  status : m'.status = m.status
  cycles : m'.cycles = m.cycles
  console : m'.console = m.console

namespace Untouched

theorem refl (m : Machine) : Untouched m m := ⟨rfl, rfl, rfl, rfl, rfl⟩

theorem trans {m₁ m₂ : Machine} (h : Untouched m m₁) (h₁ : Untouched m₁ m₂) : Untouched m m₂ :=
  ⟨h₁.processor.trans h.processor, h₁.memory.trans h.memory, h₁.status.trans h.status,
    h₁.cycles.trans h.cycles, h₁.console.trans h.console⟩

theorem of_settles (h : m.Settles m') : Untouched m m' := by
  cases h <;> exact ⟨rfl, rfl, rfl, rfl, rfl⟩

theorem remember (m : Machine) (d : Instruction) : Untouched m (m.remember d) :=
  ⟨rfl, rfl, rfl, rfl, rfl⟩

theorem withSp (h : Untouched m m') (sp : Word) : Untouched (m.withSp sp) (m'.withSp sp) where
  processor := by
    unfold Machine.withSp
    rw [h.processor]
  memory := h.memory
  status := h.status
  cycles := h.cycles
  console := h.console

end Untouched

/-- A fault of an instruction touches nothing, but for the stack pointer that `LEAVE` moves. -/
theorem executeAt_aborts (ip : Word) :
    (executeAt ip).Ends m (fun _ _ => True) (fun e m' => e.IsFault → Untouched m m' ∨
      ∃ i frame, (prepare ip).outcome m = .ok i ∧ i.opcode = .leave ∧
        Untouched (m.withSp frame) m') := by
  obtain ⟨-, e, -, failed⟩ | ⟨m₀, settles, settled, prepares, same⟩ := executeAt_settle m ip
  · exact .of_error failed fun _ => .inl (.refl m)
  have begins : Untouched m m₀ := .of_settles settles
  unfold Action.Ends
  rw [same]
  cases prepared : prepare ip m₀ with
  | error e m₁ =>
    refine Action.Ends.of_error (Action.bind_of_error prepared _) fun _ => .inl (begins.trans ?_)
    rcases ((prepare_ends settled ip).error prepared).1 with rfl | ⟨d, rfl⟩
    · exact .refl m₁
    · exact .remember m₀ d
  | ok i m₁ =>
    obtain ⟨⟨d, rfl⟩, valid⟩ := (prepare_ends settled ip).ok prepared
    have cell := (prepare_hasCell settled ip).ok prepared
    have outcome : (prepare ip).outcome m = .ok i := by
      simp only [Action.outcome, prepares.trans prepared]
    have decoded : Untouched m (m₀.remember d) := begins.trans (.remember m₀ d)
    have settled' : (m₀.remember d).Settled := settled
    rw [show executeAt ip m₀ = _ from Action.bind_of_ok prepared _]
    refine Action.Ends.bind ((perform_ends settled').and (perform_aborts settled')) ?_ ?_
    · rintro o m₂ ⟨performed, -⟩
      exact Action.Ends.imp (finish_sure settled' valid cell performed) (fun _ _ h => h)
        fun _ _ noFault fault => absurd fault noFault
    · rintro e m₂ ⟨-, aborts⟩ fault
      cases aborts fault with
      | nothing => exact .inl decoded
      | read guests => exact .inl (decoded.trans ⟨rfl, rfl, rfl, rfl, rfl⟩)
      | moved frame opcode => exact .inr ⟨i, frame, outcome, opcode, decoded.withSp frame⟩

/-- An instruction other than `LEAVE` that ends with a fault has changed neither the state of the
machine nor its memory. -/
theorem untouched_of_fault {ip : Word} {f : Fault}
    (noLeave : ∀ i, (prepare ip).outcome m = .ok i → i.opcode ≠ .leave)
    (faulted : (executeAt ip).outcome m = .error (.fault f)) :
    Untouched m ((executeAt ip).after m) := by
  rcases (executeAt_aborts ip).error (Action.eq_error_of_outcome faulted) ⟨f, rfl⟩ with
    same | ⟨i, frame, prepared, opcode, -⟩
  · exact same
  · exact absurd opcode (noLeave i prepared)

/-- A host that is about to set up a frame, without room for it on its stack. -/
def crampedHost : Machine :=
  { pushingHost with
    processor := { pushingHost.processor with sp := 0x200 }
    memory :=
      Memory.empty.place 0 [Instruction.encode ⟨.enter, 0, [⟨.immediate, Fin.last 31⟩]⟩, 7] }

theorem untouched_of_fault_crampedHost :
    (∀ i, (prepare 0).outcome crampedHost = .ok i → i.opcode ≠ .leave) ∧
      (executeAt 0).outcome crampedHost = .error (.fault (.segmentViolation .stack 0x1FF)) ∧
      Untouched crampedHost ((executeAt 0).after crampedHost) := by
  have enters : (prepare 0).outcome crampedHost = .ok ⟨.enter, 0, 2, [⟨7, none⟩]⟩ := by
    decide +kernel
  have noLeave : ∀ i, (prepare 0).outcome crampedHost = .ok i → i.opcode ≠ .leave := by
    intro i prepared
    rw [enters] at prepared
    cases prepared
    decide
  have faulted : (executeAt 0).outcome crampedHost =
      .error (.fault (.segmentViolation .stack 0x1FF)) := by decide +kernel
  exact ⟨noLeave, faulted, untouched_of_fault noLeave faulted⟩

end WordMachine.Machine
