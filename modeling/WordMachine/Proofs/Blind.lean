import WordMachine.Proofs.Delivery

/-!
# What an instruction does not see

Two machines are `Alike` for a set of cells if they differ at most in other
cells.  Work is `Blind` to the other cells if it does the same on all machines
that are alike: it ends the same way, and makes the same writes.

The cells that count are those of the segments selected for the five address
spaces.  Everything an instruction reads it reads after a translation, so every
instruction but `VMRESUME` is blind to the rest (`executeAt_blind`), and so is
the delivery of a fault in the host (`deliverFault_blind`).  Both are proved
part by part with `Blind.bind`.  What a part has to know about the machine it
starts on is that the part before it made a local change.
-/

namespace WordMachine

/-! ## Writes -/

/-- The memory after writes to cells, one after the other. -/
def Memory.setAll (m : Memory) (writes : List (Word × Word)) : Memory :=
  writes.foldl (fun m w => m.set w.1 w.2) m

theorem Memory.setAll_append (m : Memory) (writes writes' : List (Word × Word)) :
    m.setAll (writes ++ writes') = (m.setAll writes).setAll writes' :=
  List.foldl_append

/-- The same writes keep a cell the same. -/
theorem Memory.get_setAll_congr {m n : Memory} {a : Word} (h : n.get a = m.get a)
    (writes : List (Word × Word)) : (n.setAll writes).get a = (m.setAll writes).get a := by
  induction writes generalizing m n with
  | nil => exact h
  | cons w writes ih =>
    refine ih ?_
    rw [get_set, get_set, h]

namespace Machine

variable {ε ε' α β : Type} {V : Word → Prop} {m m' n : Machine}

/-! ## Machines that are alike -/

/-- The machine with another memory, and another instruction decoded last. -/
def overlay (m : Machine) (memory : Memory) (last : Option Instruction) : Machine :=
  { m with memory := memory, lastInstruction := last }

/-- Machines that differ at most in cells that do not count, and in the instruction decoded last,
which nothing reads. -/
structure Alike (V : Word → Prop) (m n : Machine) : Prop where
  /-- The rest is the same. -/
  eq : n = m.overlay n.memory n.lastInstruction
  /-- The cells that count are the same. -/
  visible : ∀ a, V a → n.memory.get a = m.memory.get a

theorem Alike.refl (m : Machine) : Alike V m m := ⟨rfl, fun _ _ => rfl⟩

theorem Alike.processor (h : Alike V m n) : n.processor = m.processor := by
  rw [h.eq]
  rfl

theorem Alike.segments (h : Alike V m n) : n.segments = m.segments := by
  rw [h.eq]
  rfl

theorem Alike.settled (h : Alike V m n) (settled : m.Settled) : n.Settled := by
  unfold Settled
  rw [h.processor, h.segments]
  exact settled

theorem Alike.segment? (h : Alike V m n) (space : AddressSpace) :
    n.segment? space = m.segment? space := by
  unfold Machine.segment? keptSegments
  rw [h.processor, h.segments]

theorem Alike.reaches (h : Alike V m n) (space : AddressSpace) (a : Word) :
    n.reaches space a = m.reaches space a := by
  unfold Machine.reaches
  rw [h.segment?, h.processor]

theorem Alike.registerCell? (h : Alike V m n) (index : Nat) :
    n.registerCell? index = m.registerCell? index := by
  unfold Machine.registerCell?
  rw [h.segment?, h.processor]

/-- A machine on which the running program sees nothing but cells that count. -/
structure Sees (V : Word → Prop) (m : Machine) : Prop where
  /-- The segment table is not needed. -/
  settled : m.Settled
  /-- Every address counts. -/
  visible : ∀ space a, m.reaches space a = true → V a

theorem Sees.of_change (h : Sees V m) (change : LocalChange m m') : Sees V m' where
  settled := change.settled h.settled
  visible space a reached := h.visible space a (by rwa [change.reaches] at reached)

/-! ## Blind work -/

/-- A way to end, on another memory. -/
def endOverlay (r : EStateM.Result ε Machine α) (memory : Memory) (last : Option Instruction) :
    EStateM.Result ε Machine α :=
  match r with
  | .ok a m => .ok a (m.overlay memory last)
  | .error e m => .error e (m.overlay memory last)

/-- Work that ends in the same way, with the same writes, on all machines that are alike. -/
def Blind (V : Word → Prop) (x : Action ε α) (m : Machine) : Prop :=
  ∃ writes, ∀ n, Alike V m n → ∃ last, x n = endOverlay (x m) (n.memory.setAll writes) last

namespace Blind

variable {x : Action ε α}

theorem of_ok {a : α} (h : ∀ n, Alike V m n → x n = .ok a n) : Blind V x m := by
  refine ⟨[], fun n alike => ⟨n.lastInstruction, ?_⟩⟩
  rw [h n alike, h m (.refl m)]
  exact congrArg _ alike.eq

theorem of_error {e : ε} (h : ∀ n, Alike V m n → x n = .error e n) : Blind V x m := by
  refine ⟨[], fun n alike => ⟨n.lastInstruction, ?_⟩⟩
  rw [h n alike, h m (.refl m)]
  exact congrArg _ alike.eq

theorem pure (a : α) : Blind V (Pure.pure a : Action ε α) m := of_ok fun _ _ => rfl

theorem throw (e : ε) : Blind V (MonadExcept.throw e : Action ε α) m := of_error fun _ _ => rfl

/-- A change of the rest of the machine. -/
theorem update {f : Machine → Machine} (h : ∀ memory last, ∃ last',
    f (m.overlay memory last) = (f m).overlay memory last') :
    Blind V (fun m => .ok () (f m) : Action ε Unit) m := by
  refine ⟨[], fun n alike => ?_⟩
  obtain ⟨last, eq⟩ := h n.memory n.lastInstruction
  rw [← alike.eq] at eq
  exact ⟨last, congrArg _ eq⟩

theorem adapt {f : ε → ε'} (h : Blind V x m) : Blind V (x.adaptExcept f) m := by
  obtain ⟨writes, same⟩ := h
  refine ⟨writes, fun n alike => ?_⟩
  obtain ⟨last, eq⟩ := same n alike
  refine ⟨last, ?_⟩
  simp only [EStateM.adaptExcept, eq]
  cases x m <;> rfl

theorem attempt (h : Blind V x m) : Blind V (x.attempt : Action ε' (Except ε α)) m := by
  obtain ⟨writes, same⟩ := h
  refine ⟨writes, fun n alike => ?_⟩
  obtain ⟨last, eq⟩ := same n alike
  refine ⟨last, ?_⟩
  simp only [Action.attempt, eq]
  cases x m <;> rfl

/-- Work that goes on where blind work ended. -/
theorem bind {f : α → Action ε β} (first : Blind V x m)
    (next : ∀ a m', x m = .ok a m' → Blind V (f a) m') : Blind V (x >>= f) m := by
  obtain ⟨writes, same⟩ := first
  cases ran : x m with
  | error e m' =>
    refine ⟨writes, fun n alike => ?_⟩
    obtain ⟨last, eq⟩ := same n alike
    rw [ran] at eq
    refine ⟨last, ?_⟩
    rw [Action.bind_of_error ran, Action.bind_of_error eq]
    rfl
  | ok a m' =>
    obtain ⟨writes', same'⟩ := next a m' ran
    -- A machine is like itself, so the writes are those of the first run as well.
    have own : m'.memory = m.memory.setAll writes := by
      obtain ⟨last, eq⟩ := same m (.refl m)
      rw [ran] at eq
      injection eq with _ eq
      exact congrArg Machine.memory eq
    refine ⟨writes ++ writes', fun n alike => ?_⟩
    obtain ⟨last, eq⟩ := same n alike
    rw [ran] at eq
    have alike' : Alike V m' (m'.overlay (n.memory.setAll writes) last) := by
      refine ⟨rfl, fun a seen => ?_⟩
      rw [own]
      exact Memory.get_setAll_congr (alike.visible a seen) writes
    obtain ⟨last', eq'⟩ := same' _ alike'
    refine ⟨last', ?_⟩
    rw [Action.bind_of_ok ran, Action.bind_of_ok eq, eq', Memory.setAll_append]
    rfl

theorem bind_ends {f : α → Action ε β} {Q : α → Machine → Prop} {E : ε → Machine → Prop}
    (first : Blind V x m) (ends : x.Ends m Q E) (next : ∀ a m', Q a m' → Blind V (f a) m') :
    Blind V (x >>= f) m :=
  first.bind fun a m' h => next a m' (ends.ok h)

theorem bind_reads {f : α → Action ε β} {P : α → Prop} {F : ε → Prop} (first : Blind V x m)
    (reads : x.Reads m P F) (next : ∀ a, P a → Blind V (f a) m) : Blind V (x >>= f) m := by
  refine first.bind_ends reads ?_
  rintro a _ ⟨rfl, holds⟩
  exact next a holds

end Blind

/-! ## Small looks -/

theorem processorState_blind (m : Machine) : Blind V (processorState : Action ε Processor) m :=
  .of_ok (a := m.processor) fun n alike => by
    rw [← alike.processor]
    rfl

theorem readCell_blind {a : Word} (seen : V a) : Blind V (readCell a : Action ε Word) m :=
  .of_ok (a := m.memory.get a) fun n alike => by
    rw [← alike.visible a seen]
    rfl

theorem writeCell_blind (a v : Word) : Blind V (writeCell a v : Action ε Unit) m := by
  refine ⟨[(a, v)], fun n alike => ⟨n.lastInstruction, ?_⟩⟩
  show EStateM.Result.ok () { n with memory := n.memory.set a v } = _
  rw [alike.eq]
  rfl

theorem modifyProcessor_blind (f : Processor → Processor) :
    Blind V (modifyProcessor f : Action ε Unit) m :=
  .update fun _ last => ⟨last, rfl⟩

theorem translate_blind (sees : Sees V m) (space : AddressSpace) (offset : Word) :
    Blind V (translate space offset) m := by
  cases reached : m.reaches space offset with
  | true =>
    refine .of_ok (a := offset) fun n alike => ?_
    rw [translate_eq (alike.settled sees.settled), alike.reaches, if_pos reached]
  | false =>
    refine .of_error (e := .fault (.segmentViolation space.kind offset)) fun n alike => ?_
    rw [translate_eq (alike.settled sees.settled), alike.reaches, if_neg (by simp [reached])]

theorem registerAddress_blind (sees : Sees V m) {index : Nat} (small : index < registerCount) :
    Blind V (registerAddress index) m := by
  cases cell : m.registerCell? index with
  | some a =>
    refine .of_ok (a := a) fun n alike => ?_
    rw [registerAddress_eq (alike.settled sees.settled) small, alike.registerCell?, cell]
  | none =>
    refine .of_error (e := .fault (.segmentViolation .register (UInt32.ofNat index)))
      fun n alike => ?_
    rw [registerAddress_eq (alike.settled sees.settled) small, alike.registerCell?, cell]

theorem readRegister_blind (sees : Sees V m) {index : Nat} (small : index < registerCount) :
    Blind V (readRegister index) m :=
  (registerAddress_blind sees small).bind_reads (registerAddress_reads sees.settled small)
    fun _ cell => readCell_blind (sees.visible .register _ (reaches_of_registerCell? small cell))

theorem writeRegister_blind (sees : Sees V m) {index : Nat} (small : index < registerCount)
    (v : Word) : Blind V (writeRegister index v) m :=
  (registerAddress_blind sees small).bind fun a _ _ => writeCell_blind a v

theorem fetch_blind (sees : Sees V m) (offset : Word) : Blind V (fetch offset) m := by
  refine (translate_blind sees .code offset).bind_reads (translate_reads sees.settled .code offset) ?_
  rintro _ ⟨rfl, reached⟩
  exact readCell_blind (sees.visible .code _ reached)

/-! ## Operands -/

theorem baseValue_blind (sees : Sees V m) (d : OperandDescriptor) : Blind V (baseValue d) m := by
  unfold baseValue
  cases base : d.base? with
  | none => exact .pure 0
  | some index => exact readRegister_blind sees (d.lt_of_base? base)

theorem fetchExtra_blind (sees : Sees V m) (cursor : Word) : Blind V (fetchExtra cursor) m :=
  (fetch_blind sees cursor).bind fun _ _ _ => .pure _

theorem operandAddress_blind (sees : Sees V m) (d : OperandDescriptor) (literal : Word) :
    Blind V (operandAddress d literal) m := by
  refine (baseValue_blind sees d).bind_reads (baseValue_reads sees.settled d) fun base _ => ?_
  refine (translate_blind sees d.kind.space (literal + base)).bind_reads
    (translate_reads sees.settled _ _) ?_
  rintro _ ⟨rfl, reached⟩
  cases d.kind.isDouble with
  | false => exact .pure (literal + base)
  | true =>
    refine (readCell_blind (sees.visible _ _ reached)).bind_reads
      (readCell_reads (F := Exception.IsFault) m _) fun pointer _ => ?_
    exact translate_blind sees d.kind.space pointer

theorem resolveControl_blind (m : Machine) (ip : Word) (position : Nat) (register : Fin 32) :
    Blind V (resolveControl ip position register) m := by
  unfold resolveControl
  cases ControlRegister.ofIndex? register with
  | none => exact .throw _
  | some r =>
    refine (processorState_blind m).bind fun p _ _ => ?_
    cases p.inGuest with
    | true => exact .throw _
    | false => exact .pure _

theorem resolveMemory_blind (sees : Sees V m) (cursor : Word) (d : OperandDescriptor) :
    Blind V (resolveMemory cursor d) m := by
  refine (fetchExtra_blind sees cursor).bind_reads (fetchExtra_reads sees.settled cursor)
    fun fetched _ => ?_
  refine (operandAddress_blind sees d _).bind_reads (operandAddress_reads sees.settled d _)
    fun a leads => ?_
  exact (readCell_blind (sees.visible _ a leads.1)).bind fun _ _ _ => .pure _

theorem resolve_blind (sees : Sees V m) (ip : Word) (position : Nat) (cursor : Word)
    {d : OperandDescriptor} (named : d.isNamed = true) :
    Blind V (resolve ip position cursor d) m := by
  unfold resolve
  cases kind : d.kind with
  | immediate => exact (fetchExtra_blind sees cursor).bind fun _ _ _ => .pure _
  | register =>
    exact (readRegister_blind sees (d.lt_of_isNamed kind named)).bind fun _ _ _ => .pure _
  | control => exact (resolveControl_blind m ip position d.register).bind fun _ _ _ => .pure _
  | singleDs | singleEs | doubleDs | doubleEs => exact resolveMemory_blind sees cursor d

theorem resolveAll_blind (sees : Sees V m) (ip : Word) {classes : List OperandClass}
    {ds : List OperandDescriptor} (obey : Instruction.operandsObey classes ds = true)
    (position : Nat) (cursor : Word) : Blind V (resolveAll ip position cursor ds) m := by
  induction ds generalizing classes position cursor with
  | nil => exact .pure _
  | cons d ds ih =>
    obtain ⟨named, classes, rest⟩ := Instruction.operandsObey_of_cons obey
    refine (resolve_blind sees ip position cursor named).bind_reads
      (resolve_reads sees.settled ip position cursor named) fun o _ => ?_
    exact (ih rest _ _).bind fun _ _ _ => .pure _

theorem fetchInstruction_blind (sees : Sees V m) (ip : Word) :
    Blind V (fetchInstruction ip) m := by
  refine (fetch_blind sees ip).bind fun word _ _ => ?_
  cases Instruction.decode word with
  | error e => exact .throw _
  | ok i =>
    exact Blind.bind (.update fun _ _ => ⟨some i, rfl⟩) fun _ _ _ => .pure i

theorem prepare_blind (sees : Sees V m) (ip : Word) : Blind V (prepare ip) m := by
  refine (fetchInstruction_blind sees ip).bind_ends (fetchInstruction_ends sees.settled ip) ?_
  rintro d _ ⟨rfl, decoded⟩
  have sees' : Sees V (m.remember d) := sees.of_change (.remember m d)
  have checks : Blind V (checkPrivilege d) (m.remember d) := by
    refine (processorState_blind _).bind fun p _ _ => ?_
    show Blind V (if p.privilege < d.privilege.toUInt32 then _ else _ : Action Exception Unit) _
    split
    · exact .throw _
    · exact .pure ()
  refine checks.bind_reads (checkPrivilege_reads _ d) fun _ _ => ?_
  exact (resolveAll_blind sees' ip (Instruction.obeys_of_decode decoded) 0 (ip + 1)).bind
    fun _ _ _ => .pure _

/-! ## Performing -/

variable {i : ResolvedInstruction}

theorem push_blind (sees : Sees V m) (v : Word) : Blind V (push v) m := by
  refine (processorState_blind m).bind_reads (processorState_reads (F := Exception.IsFault) m) ?_
  rintro p -
  refine (translate_blind sees .stack (p.sp - 1)).bind fun a _ _ => ?_
  exact (writeCell_blind a v).bind fun _ _ _ => modifyProcessor_blind _

theorem pop_blind (sees : Sees V m) : Blind V pop m := by
  refine (processorState_blind m).bind_reads (processorState_reads (F := Exception.IsFault) m) ?_
  rintro p -
  refine (translate_blind sees .stack p.sp).bind_reads (translate_reads sees.settled .stack p.sp) ?_
  rintro _ ⟨rfl, reached⟩
  refine (readCell_blind (sees.visible .stack _ reached)).bind fun v _ _ => ?_
  exact (modifyProcessor_blind _).bind fun _ _ _ => .pure v

theorem hostOnly_blind (m : Machine) (reason : TrapReason) (resumeIp : Word) (extra : List Word) :
    Blind V (hostOnly reason resumeIp extra) m := by
  refine (processorState_blind m).bind fun p _ _ => ?_
  split
  · exact .throw _
  · exact .pure ()

theorem performArithmetic_blind (m : Machine) (i : ResolvedInstruction) :
    Blind V (performArithmetic i) m := by
  unfold performArithmetic
  split
  · exact .throw _
  · split
    · exact .throw _
    · exact .pure _

theorem performBranch_blind (m : Machine) (i : ResolvedInstruction) :
    Blind V (performBranch i) m := by
  unfold performBranch
  split
  · exact .throw _
  · refine (processorState_blind m).bind fun p _ _ => ?_
    split
    · exact .pure _
    · exact .pure _

theorem performEnter_blind (sees : Sees V m) : Blind V (performEnter i) m := by
  have frame : framePointer < registerCount := by decide
  refine (readRegister_blind sees frame).bind_reads (readRegister_reads sees.settled frame)
    fun saved _ => ?_
  refine (push_blind sees saved).bind_ends (push_ends sees.settled saved) fun _ m₁ pushed => ?_
  refine (processorState_blind m₁).bind_reads (processorState_reads (F := Exception.IsFault) m₁)
    fun p _ => ?_
  refine (writeRegister_blind (sees.of_change pushed) frame p.sp).bind fun _ _ _ => ?_
  exact (modifyProcessor_blind _).bind fun _ _ _ => .pure _

theorem performLeave_blind (sees : Sees V m) : Blind V performLeave m := by
  have frame : framePointer < registerCount := by decide
  refine (readRegister_blind sees frame).bind_reads (readRegister_reads sees.settled frame)
    fun sp _ => ?_
  have moves : (modifyProcessor fun p => { p with sp := sp } : Action Exception Unit).Ends m
      (fun _ m' => m' = m.withSp sp) (fun _ _ => False) := rfl
  refine (modifyProcessor_blind _).bind_ends moves ?_
  rintro _ _ rfl
  have sees₁ := sees.of_change (.withSp m sp)
  refine (pop_blind sees₁).bind_ends (pop_ends sees₁.settled) fun saved m₂ popped => ?_
  exact (writeRegister_blind (sees₁.of_change popped) frame saved).bind fun _ _ _ => .pure _

theorem performGetArgument_blind (sees : Sees V m) : Blind V (performGetArgument i) m := by
  have frame : framePointer < registerCount := by decide
  refine (readRegister_blind sees frame).bind_reads (readRegister_reads sees.settled frame)
    fun base _ => ?_
  refine (translate_blind sees .stack (base + 2 + i.second)).bind_reads
    (translate_reads sees.settled _ _) ?_
  rintro _ ⟨rfl, reached⟩
  exact (readCell_blind (sees.visible .stack _ reached)).bind fun _ _ _ => .pure _

theorem performSetInterrupts_blind (m : Machine) (i : ResolvedInstruction) (on : Bool) :
    Blind V (performSetInterrupts i on) m :=
  (hostOnly_blind m _ _ _).bind fun _ _ _ =>
    (modifyProcessor_blind _).bind fun _ _ _ => .pure _

/-- Only `VMRESUME` reads anything that is out of sight. -/
theorem perform_blind (sees : Sees V m) (noResume : i.opcode ≠ .vmResume) :
    Blind V (perform i) m := by
  unfold perform
  cases opcode : i.opcode
  case add | sub | mul | div | mod | or | xor | and | not | shl | shr =>
    exact performArithmetic_blind m i
  case jmp | jz | jnz | jgt | jge => exact performBranch_blind m i
  case mov | nop => exact .pure _
  case halt => exact (hostOnly_blind m _ _ _).bind fun _ _ _ => .pure _
  case print =>
    refine (hostOnly_blind m _ _ _).bind fun _ _ _ => ?_
    exact Blind.bind (.update fun _ last => ⟨last, rfl⟩) fun _ _ _ => .pure _
  case cmp => exact (modifyProcessor_blind _).bind fun _ _ _ => .pure _
  case call => exact (push_blind sees i.nextIp).bind fun _ _ _ => .pure _
  case ret | reti => exact (pop_blind sees).bind fun _ _ _ => .pure _
  case retn =>
    refine (pop_blind sees).bind fun _ _ _ => ?_
    exact (modifyProcessor_blind _).bind fun _ _ _ => .pure _
  case push => exact (push_blind sees i.first).bind fun _ _ _ => .pure _
  case pop => exact (pop_blind sees).bind fun _ _ _ => .pure _
  case enter => exact performEnter_blind sees
  case leave => exact performLeave_blind sees
  case getArgument => exact performGetArgument_blind sees
  case int => exact .throw _
  case vmResume => exact absurd opcode noResume
  case cli => exact performSetInterrupts_blind m i false
  case sti => exact performSetInterrupts_blind m i true

/-! ## Executing -/

theorem writeResult_blind (sees : Sees V m) (prepared : m.Prepared i) (change : LocalChange m m')
    (o : Outcome) : Blind V (writeResult i o) m' := by
  unfold writeResult
  cases o.result with
  | none => exact .pure ()
  | some v =>
    cases target : i.target? with
    | none => exact .throw _
    | some t =>
      cases t with
      | register index =>
        have small : index < registerCount := prepared.canReceive _ target
        exact writeRegister_blind (sees.of_change change) small v
      | cell a => exact writeCell_blind a v
      | control r => exact .update fun _ last => ⟨last, by cases r <;> rfl⟩

theorem follow_blind (m : Machine) (i : ResolvedInstruction) (control : Control) :
    Blind V (follow i control) m := by
  cases control with
  | next => exact modifyProcessor_blind fun p => { p with ip := i.nextIp }
  | jump target => exact modifyProcessor_blind fun p => { p with ip := target }
  | redirected => exact .pure ()
  | halt => exact (modifyProcessor_blind _).bind fun _ _ _ => .update fun _ last => ⟨last, rfl⟩

theorem finish_blind (sees : Sees V m) (prepared : m.Prepared i) {o : Outcome}
    (performed : Performed i m o m') :
    Blind V (do writeResult i o; follow i o.control : Action Exception Unit) m' := by
  have writes : Blind V (writeResult i o) m' := by
    cases performed with
    | plain change => exact writeResult_blind sees prepared change o
    | effect _ result => simpa only [writeResult, result] using .pure ()
    | halt => exact .pure ()
  exact writes.bind fun _ m₂ _ => follow_blind m₂ i o.control

/-- An instruction other than `VMRESUME` does not see what is out of sight. -/
theorem executeAt_blind (sees : Sees V m) (ip : Word)
    (noResume : ∀ i, (prepare ip).outcome m = .ok i → i.opcode ≠ .vmResume) :
    Blind V (executeAt ip) m := by
  refine (prepare_blind sees ip).bind fun i m₁ prepared => ?_
  obtain ⟨⟨d, rfl⟩, valid⟩ := (prepare_ends sees.settled ip).ok prepared
  have sees₁ : Sees V (m.remember d) := sees.of_change (.remember m d)
  have opcode := noResume i (by simp [Action.outcome, prepared])
  exact (perform_blind sees₁ opcode).bind_ends (perform_ends sees₁.settled)
    fun o m₂ performed => finish_blind sees₁ valid performed

/-! ## Delivery in the host -/

theorem pushAll_blind (sees : Sees V m) (words : List Word) : Blind V (pushAll words) m := by
  induction words generalizing m with
  | nil => exact .pure ()
  | cons word words ih =>
    exact (push_blind sees word).bind_ends (push_ends sees.settled word)
      fun _ m₁ pushed => ih (sees.of_change pushed)

theorem raiseInterrupt_blind (sees : Sees V m) (host : m.processor.inGuest = false)
    (number returnIp : Word) (extra : List Word) :
    Blind V (raiseInterrupt number returnIp extra) m := by
  unfold raiseInterrupt
  split
  · exact .throw _
  · refine (processorState_blind m).bind_reads (processorState_reads (F := fun _ => True) m) ?_
    rintro _ rfl
    rw [host]
    refine Blind.bind (pushAll_blind sees (extra ++ [returnIp])).adapt fun _ _ _ => ?_
    exact modifyProcessor_blind _

theorem deliverFault_blind (sees : Sees V m) (host : m.processor.inGuest = false) (ip : Word)
    (f : Fault) : Blind V (deliverFault ip f) m := by
  obtain ⟨reason, resumeIp, extra, -, eq⟩ | ⟨number, returnIp, extra, -, eq⟩ :=
    deliverFault_cases ip f
  · rw [eq]
    refine .of_error fun n alike => raiseTrap_of_host ?_ reason resumeIp extra
    rw [alike.processor, host]
  · rw [eq]
    exact raiseInterrupt_blind sees host number returnIp extra

end Machine

end WordMachine
