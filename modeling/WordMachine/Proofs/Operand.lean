import Mathlib.Data.List.Forall2
import WordMachine.Machine.Execute
import WordMachine.Proofs.Translation

/-!
# What preparing an instruction finds

Up to the point where an instruction is performed, nothing happens to a settled
machine except that it remembers the instruction.  All failures on the way are
faults (`prepare_ends`).  An operand is `ResolvedAt` a cursor if its extra word is
there, and the operands of an instruction are resolved one after the other, each
past the extra words of those before it (`ResolvedFrom`).

What an operand can receive a result in is `CanReceive`: a register that
exists, a cell of a data segment, and, in the host only, a control register.
An instruction that was prepared is `Prepared`.  Its first operand is such a
place if its opcode has a result, and a control register only for `MOV`.
-/

namespace WordMachine

/-- Whether an exception is a fault. -/
def Exception.IsFault (e : Exception) : Prop := ∃ f, e = .fault f

namespace Opcode

/-- Whether performing an opcode gives a value for the first operand. -/
def hasResult : Opcode → Bool
  | .add | .sub | .mul | .div | .mod | .or | .xor | .and | .not | .shl | .shr => true
  | .mov | .pop | .getArgument => true
  | _ => false

theorem arity_pos_of_hasResult {o : Opcode} (h : o.hasResult = true) : 0 < o.arity := by
  revert h
  cases o <;> decide

theorem not_accepts_immediate_of_hasResult {o : Opcode} (h : o.hasResult = true) :
    o.accepts 0 .immediate = false := by
  revert h
  cases o <;> decide

/-- Only `MOV` takes a control register as its first operand. -/
theorem eq_mov_of_accepts_control {o : Opcode} (h : o.accepts 0 .control = true) : o = .mov := by
  revert h
  cases o <;> decide

end Opcode

namespace OperandDescriptor

theorem lt_of_base? (d : OperandDescriptor) {index : Nat} (base : d.base? = some index) :
    index < registerCount := by
  have bound := d.register.isLt
  simp only [base?, Option.ite_none_left_eq_some, Option.some.injEq] at base
  simp only [noRegister, registerCount] at *
  omega

theorem lt_of_isNamed (d : OperandDescriptor) (kind : d.kind = .register)
    (named : d.isNamed = true) : d.register < registerCount := by
  have bound := d.register.isLt
  have real : d.register.val ≠ noRegister := by simpa [isNamed, kind] using named
  simp only [noRegister, registerCount] at *
  omega

end OperandDescriptor

namespace Machine

variable {m : Machine}

/-! ## Small looks -/

theorem processorState_reads {F : ε → Prop} (m : Machine) :
    (processorState : Action ε Processor).Reads m (· = m.processor) F :=
  Action.Reads.of_ok rfl rfl

theorem readCell_reads {F : ε → Prop} (m : Machine) (a : Word) :
    (readCell a : Action ε Word).Reads m (· = m.memory.get a) F :=
  Action.Reads.of_ok rfl rfl

theorem translate_reads (settled : m.Settled) (space : AddressSpace) (offset : Word) :
    (translate space offset).Reads m (fun a => a = offset ∧ m.reaches space offset = true)
      Exception.IsFault := by
  have eq := translate_eq settled space offset
  cases reached : m.reaches space offset with
  | true => exact .of_ok (by rw [eq, if_pos reached]) ⟨rfl, rfl⟩
  | false => exact .of_error (by rw [eq, if_neg (by simp [reached])]) ⟨_, rfl⟩

theorem registerAddress_reads (settled : m.Settled) {index : Nat} (small : index < registerCount) :
    (registerAddress index).Reads m (fun a => m.registerCell? index = some a)
      Exception.IsFault := by
  have eq := registerAddress_eq settled small
  cases cell : m.registerCell? index with
  | some a => exact .of_ok (by rw [eq, cell]) rfl
  | none => exact .of_error (by rw [eq, cell]) ⟨_, rfl⟩

/-- What a general register holds, if it has a cell. -/
def register? (m : Machine) (index : Nat) : Option Word :=
  (m.registerCell? index).map m.memory.get

theorem isSome_of_register? {index : Nat} {v : Word} (value : m.register? index = some v) :
    (m.registerCell? index).isSome = true := by
  rw [← Option.isSome_map, ← register?, value]
  rfl

theorem readRegister_reads (settled : m.Settled) {index : Nat} (small : index < registerCount) :
    (readRegister index).Reads m (fun v => m.register? index = some v) Exception.IsFault :=
  .bind (registerAddress_reads settled small) fun a found =>
    (readCell_reads m a).imp (fun _ value => by rw [value, register?, found]; rfl) fun _ h => h

theorem fetch_reads (settled : m.Settled) (offset : Word) :
    (fetch offset).Reads m (fun w => w = m.memory.get offset ∧ m.reaches .code offset = true)
      Exception.IsFault := by
  refine .bind (translate_reads settled .code offset) ?_
  rintro _ ⟨rfl, reached⟩
  exact (readCell_reads m _).imp (fun _ h => ⟨h, reached⟩) fun _ h => h

/-! ## Operands -/

/-- What the base register of a memory operand holds, zero if the operand has none. -/
def base? (m : Machine) (d : OperandDescriptor) : Option Word :=
  match d.base? with
  | some index => m.register? index
  | none => some 0

theorem baseValue_reads (settled : m.Settled) (d : OperandDescriptor) :
    (baseValue d).Reads m (fun v => m.base? d = some v) Exception.IsFault := by
  unfold baseValue base?
  cases base : d.base? with
  | none => exact .pure rfl
  | some index => exact readRegister_reads settled (d.lt_of_base? base)

/-- An extra word is the one at the cursor, and the cursor moves past it. -/
theorem fetchExtra_reads (settled : m.Settled) (cursor : Word) :
    (fetchExtra cursor).Reads m
      (fun fetched => fetched = (m.memory.get cursor, cursor + 1) ∧ m.reaches .code cursor = true)
      Exception.IsFault := by
  refine .bind (fetch_reads settled cursor) ?_
  rintro _ ⟨rfl, reached⟩
  exact .pure ⟨rfl, reached⟩

/-- Whether a memory operand with an extra word leads to a cell: the one at the extra word plus the
base, or the one whose address is there. -/
def Leads (m : Machine) (d : OperandDescriptor) (literal a : Word) : Prop :=
  m.reaches d.kind.space a = true ∧ ∃ base, m.base? d = some base ∧
    m.reaches d.kind.space (literal + base) = true ∧
    a = if d.kind.isDouble then m.memory.get (literal + base) else literal + base

theorem operandAddress_reads (settled : m.Settled) (d : OperandDescriptor) (literal : Word) :
    (operandAddress d literal).Reads m (m.Leads d literal) Exception.IsFault := by
  refine .bind (baseValue_reads settled d) fun base known => ?_
  refine .bind (translate_reads settled d.kind.space (literal + base)) ?_
  rintro _ ⟨rfl, reached⟩
  cases double : d.kind.isDouble with
  | false => exact .pure ⟨reached, base, known, reached, by rw [double]; rfl⟩
  | true =>
    refine .bind (readCell_reads m _) ?_
    rintro _ rfl
    refine (translate_reads settled d.kind.space _).imp ?_ fun _ h => h
    rintro _ ⟨rfl, found⟩
    exact ⟨found, base, known, reached, by rw [double]; rfl⟩

/-- How an operand that a descriptor stands for is resolved. -/
def Resolves (m : Machine) (d : OperandDescriptor) (o : ResolvedOperand) : Prop :=
  match d.kind with
  | .immediate => o.target = none
  | .register => d.register < registerCount ∧ o.target = some (.register d.register)
  | .control => m.processor.inGuest = false ∧ ∃ r, o.target = some (.control r)
  | _ => ∃ a, o.target = some (.cell a) ∧ m.reaches d.kind.space a = true

/-- What an operand is resolved to whose extra word, if it has one, is `literal`. -/
def StandsFor (m : Machine) (d : OperandDescriptor) (literal : Word) (o : ResolvedOperand) : Prop :=
  match d.kind with
  | .immediate => o = ⟨literal, none⟩
  | .register => ∃ v, m.register? d.register = some v ∧ o = ⟨v, some (.register d.register)⟩
  | .control => m.processor.inGuest = false ∧ ∃ r, ControlRegister.ofIndex? d.register = some r ∧
      o = ⟨m.processor.control r, some (.control r)⟩
  | _ => ∃ a, m.Leads d literal a ∧ o = ⟨m.memory.get a, some (.cell a)⟩

/-- An operand whose extra word, if it has one, is at the cursor. -/
structure ResolvedAt (m : Machine) (cursor : Word) (d : OperandDescriptor) (o : ResolvedOperand) :
    Prop where
  fetched : d.kind.hasExtraWord = true → m.reaches .code cursor = true
  standsFor : m.StandsFor d (m.memory.get cursor) o

theorem ResolvedAt.resolves {cursor : Word} {d : OperandDescriptor} {o : ResolvedOperand}
    (h : m.ResolvedAt cursor d o) (named : d.isNamed = true) : m.Resolves d o := by
  have stands := h.standsFor
  unfold StandsFor at stands
  unfold Resolves
  cases kind : d.kind with
  | immediate =>
    simp only [kind] at stands ⊢
    rw [stands]
  | register =>
    simp only [kind] at stands ⊢
    obtain ⟨v, -, rfl⟩ := stands
    exact ⟨d.lt_of_isNamed kind named, rfl⟩
  | control =>
    simp only [kind] at stands ⊢
    obtain ⟨host, r, -, rfl⟩ := stands
    exact ⟨host, r, rfl⟩
  | singleDs | singleEs | doubleDs | doubleEs =>
    simp only [kind] at stands ⊢
    obtain ⟨a, leads, rfl⟩ := stands
    have reached := leads.1
    rw [kind] at reached
    exact ⟨a, rfl, reached⟩

theorem resolveControl_reads (ip : Word) (position : Nat) (register : Fin 32) :
    (resolveControl ip position register).Reads m
      (fun o => m.processor.inGuest = false ∧ ∃ r, ControlRegister.ofIndex? register = some r ∧
        o = ⟨m.processor.control r, some (.control r)⟩)
      Exception.IsFault := by
  unfold resolveControl
  cases known : ControlRegister.ofIndex? register with
  | none => exact .throw ⟨_, rfl⟩
  | some r =>
    refine .bind (processorState_reads m) ?_
    rintro _ rfl
    cases guest : m.processor.inGuest with
    | true => exact .throw ⟨_, rfl⟩
    | false => exact .pure ⟨rfl, r, rfl, rfl⟩

theorem resolveMemory_reads (settled : m.Settled) (cursor : Word) (d : OperandDescriptor) :
    (resolveMemory cursor d).Reads m
      (fun o => m.reaches .code cursor = true ∧
        (∃ a, m.Leads d (m.memory.get cursor) a ∧ o.1 = ⟨m.memory.get a, some (.cell a)⟩) ∧
        o.2 = cursor + 1)
      Exception.IsFault := by
  refine .bind (fetchExtra_reads settled cursor) ?_
  rintro _ ⟨rfl, fetched⟩
  refine .bind (operandAddress_reads settled d _) fun a leads => ?_
  refine .bind (readCell_reads m a) ?_
  rintro _ rfl
  exact .pure ⟨fetched, ⟨a, leads, rfl⟩, rfl⟩

theorem resolve_reads (settled : m.Settled) (ip : Word) (position : Nat) (cursor : Word)
    {d : OperandDescriptor} (named : d.isNamed = true) :
    (resolve ip position cursor d).Reads m
      (fun o => m.ResolvedAt cursor d o.1 ∧
        o.2 = if d.kind.hasExtraWord then cursor + 1 else cursor)
      Exception.IsFault := by
  unfold resolve
  cases kind : d.kind with
  | immediate =>
    refine .bind (fetchExtra_reads settled cursor) ?_
    rintro _ ⟨rfl, fetched⟩
    exact .pure ⟨⟨fun _ => fetched, by unfold StandsFor; rw [kind]⟩, rfl⟩
  | register =>
    refine .bind (readRegister_reads settled (d.lt_of_isNamed kind named)) fun v value => ?_
    refine .pure ⟨⟨fun extra => ?_, ?_⟩, rfl⟩
    · rw [kind] at extra
      cases extra
    · unfold StandsFor
      rw [kind]
      exact ⟨v, value, rfl⟩
  | control =>
    refine .bind (resolveControl_reads ip position d.register) fun o place => ?_
    refine .pure ⟨⟨fun extra => ?_, ?_⟩, rfl⟩
    · rw [kind] at extra
      cases extra
    · unfold StandsFor
      rw [kind]
      exact place
  | singleDs | singleEs | doubleDs | doubleEs =>
    refine (resolveMemory_reads settled cursor d).imp ?_ fun _ h => h
    rintro o ⟨fetched, stands, moved⟩
    refine ⟨⟨fun _ => fetched, ?_⟩, moved⟩
    unfold StandsFor
    rw [kind]
    exact stands

/-- Past its extra words an instruction has its length. -/
theorem cursor_eq_add_length (ip : Word) (i : Instruction) :
    ip + 1 + UInt32.ofNat (i.operands.countP (·.kind.hasExtraWord)) =
      ip + UInt32.ofNat i.length := by
  rw [Instruction.length, UInt32.ofNat_add, ← UInt32.add_assoc]
  rfl

/-- The cursor after the first operand and the others. -/
theorem cursor_add_countP (cursor : Word) (d : OperandDescriptor) (ds : List OperandDescriptor) :
    (if d.kind.hasExtraWord then cursor + 1 else cursor) +
        UInt32.ofNat (ds.countP (·.kind.hasExtraWord)) =
      cursor + UInt32.ofNat ((d :: ds).countP (·.kind.hasExtraWord)) := by
  rw [List.countP_cons]
  split
  next => rw [UInt32.ofNat_add, UInt32.add_comm (UInt32.ofNat _), ← UInt32.add_assoc]; rfl
  next => rfl

/-- The extra word of each operand is next to those of the operands before it. -/
def ResolvedFrom (m : Machine) (cursor : Word) (ds : List OperandDescriptor)
    (os : List ResolvedOperand) : Prop :=
  ∀ k d o, ds[k]? = some d → os[k]? = some o →
    m.ResolvedAt (cursor + UInt32.ofNat ((ds.take k).countP (·.kind.hasExtraWord))) d o

theorem ResolvedFrom.cons {cursor : Word} {d : OperandDescriptor} {ds : List OperandDescriptor}
    {o : ResolvedOperand} {os : List ResolvedOperand} (first : m.ResolvedAt cursor d o)
    (rest : m.ResolvedFrom (if d.kind.hasExtraWord then cursor + 1 else cursor) ds os) :
    m.ResolvedFrom cursor (d :: ds) (o :: os) := by
  intro k d' o' operand resolved
  cases k with
  | zero =>
    simp only [List.getElem?_cons_zero, Option.some.injEq] at operand resolved
    subst operand resolved
    simpa using first
  | succ k =>
    rw [List.take_succ_cons, ← cursor_add_countP]
    exact rest k d' o' (by simpa using operand) (by simpa using resolved)

theorem resolveAll_reads (settled : m.Settled) (ip : Word) {classes : List OperandClass}
    {ds : List OperandDescriptor} (obey : Instruction.operandsObey classes ds = true)
    (position : Nat) (cursor : Word) :
    (resolveAll ip position cursor ds).Reads m
      (fun os => List.Forall₂ m.Resolves ds os.1 ∧ m.ResolvedFrom cursor ds os.1 ∧
        os.2 = cursor + UInt32.ofNat (ds.countP (·.kind.hasExtraWord)))
      Exception.IsFault := by
  induction ds generalizing classes position cursor with
  | nil => exact .pure ⟨.nil, by simp [ResolvedFrom], by simp⟩
  | cons d ds ih =>
    obtain ⟨named, classes, rest⟩ := Instruction.operandsObey_of_cons obey
    refine .bind (resolve_reads settled ip position cursor named) ?_
    rintro ⟨o, _⟩ ⟨resolved, rfl⟩
    refine .bind (ih rest _ _) ?_
    rintro ⟨os, _⟩ ⟨others, from_next, rfl⟩
    exact .pure ⟨.cons (resolved.resolves named) others, .cons resolved from_next,
      cursor_add_countP cursor d ds⟩

/-! ## The whole preparation -/

/-- Whether a result may be written to a place. -/
def CanReceive (m : Machine) : WriteTarget → Prop
  | .register index => index < registerCount
  | .cell a => m.reaches .data a = true ∨ m.reaches .extraData a = true
  | .control _ => m.processor.inGuest = false

/-- What holds of an instruction whose operands were resolved. -/
structure Prepared (m : Machine) (i : ResolvedInstruction) : Prop where
  /-- The place for a result may be written. -/
  canReceive : ∀ t, i.target? = some t → m.CanReceive t
  /-- An opcode with a result has a place for it. -/
  hasTarget : i.opcode.hasResult = true → i.target?.isSome = true
  /-- Only `MOV` writes control registers. -/
  eq_mov : ∀ r, i.target? = some (.control r) → i.opcode = .mov

theorem Resolves.canReceive {d : OperandDescriptor} {o : ResolvedOperand} (h : m.Resolves d o)
    {t : WriteTarget} (target : o.target = some t) : m.CanReceive t := by
  unfold Resolves at h
  cases kind : d.kind <;> simp only [kind] at h
  case immediate => simp [h] at target
  case register =>
    obtain ⟨small, place⟩ := h
    rw [place] at target
    cases target
    exact small
  case control =>
    obtain ⟨host, r, place⟩ := h
    rw [place] at target
    cases target
    exact host
  all_goals
    obtain ⟨a, place, reached⟩ := h
    rw [place] at target
    cases target
    simp_all [CanReceive, OperandKind.space]

theorem Resolves.isSome_target {d : OperandDescriptor} {o : ResolvedOperand} (h : m.Resolves d o)
    (kind : d.kind ≠ .immediate) : o.target.isSome = true := by
  unfold Resolves at h
  cases h' : d.kind <;> simp only [h'] at h kind <;> grind

theorem Resolves.kind_eq_control {d : OperandDescriptor} {o : ResolvedOperand}
    (h : m.Resolves d o) {r : ControlRegister} (target : o.target = some (.control r)) :
    d.kind = .control := by
  unfold Resolves at h
  cases h' : d.kind <;> simp only [h'] at h <;> grind

theorem prepared_of_obeys {i : Instruction} (obeys : i.Obeys) {os : List ResolvedOperand}
    (resolved : List.Forall₂ m.Resolves i.operands os) (ip nextIp : Word) :
    m.Prepared ⟨i.opcode, ip, nextIp, os⟩ := by
  obtain ⟨opcode, privilege, ds⟩ := i
  have arity : ds.length = opcode.arity := Instruction.length_of_operandsObey obeys
  cases resolved with
  | nil =>
    refine ⟨fun t h => by simp [ResolvedInstruction.target?] at h, fun h => ?_,
      fun t h => by simp [ResolvedInstruction.target?] at h⟩
    have := Opcode.arity_pos_of_hasResult h
    simp_all
  | @cons d o ds os first rest =>
    obtain ⟨accepted, _⟩ := Instruction.accepts_of_obeys obeys (k := 0) (d := d) rfl
    refine ⟨fun t target => first.canReceive target, fun h => first.isSome_target ?_,
      fun r target => ?_⟩
    -- No opcode with a result accepts a literal as its first operand.
    · rintro kind
      rw [kind, Opcode.not_accepts_immediate_of_hasResult h] at accepted
      cases accepted
    · rw [first.kind_eq_control target] at accepted
      exact Opcode.eq_mov_of_accepts_control accepted

/-- The machine after it decoded an instruction. -/
def remember (m : Machine) (i : Instruction) : Machine := { m with lastInstruction := some i }

theorem fetchInstruction_ends (settled : m.Settled) (ip : Word) :
    (fetchInstruction ip).Ends m
      (fun i m' => m' = m.remember i ∧ Instruction.decode (m.memory.get ip) = .ok i)
      (fun e m' => m' = m ∧ e.IsFault) := by
  refine (fetch_reads settled ip).bind_ends ?_ fun e h => ⟨rfl, h⟩
  rintro _ ⟨rfl, _⟩
  cases decoded : Instruction.decode (m.memory.get ip) with
  | error e => exact .throw ⟨rfl, _, rfl⟩
  | ok i => exact ⟨rfl, rfl⟩

theorem checkPrivilege_of_lt {i : Instruction}
    (low : m.processor.privilege < i.privilege.toUInt32) :
    checkPrivilege i m =
      .error (.fault (.privilegeViolation i.privilege m.processor.privilege)) m :=
  congrFun (if_pos low) m

theorem checkPrivilege_of_le {i : Instruction}
    (enough : i.privilege.toUInt32 ≤ m.processor.privilege) : checkPrivilege i m = .ok () m :=
  congrFun (if_neg (UInt32.not_lt.mpr enough)) m

theorem checkPrivilege_reads (m : Machine) (i : Instruction) :
    (checkPrivilege i).Reads m (fun _ => i.privilege.toUInt32 ≤ m.processor.privilege)
      Exception.IsFault := by
  by_cases low : m.processor.privilege < i.privilege.toUInt32
  · exact .of_error (checkPrivilege_of_lt low) ⟨_, rfl⟩
  · have enough := UInt32.not_lt.mp low
    exact .of_ok (checkPrivilege_of_le enough) enough

/-- Preparing an instruction only makes the machine remember it, and fails only with a fault. -/
theorem prepare_ends (settled : m.Settled) (ip : Word) :
    (prepare ip).Ends m (fun i m' => (∃ d, m' = m.remember d) ∧ m'.Prepared i)
      (fun e m' => (m' = m ∨ ∃ d, m' = m.remember d) ∧ e.IsFault) := by
  refine .bind (fetchInstruction_ends settled ip) ?_ fun e m' h => ⟨.inl h.1, h.2⟩
  rintro d _ ⟨rfl, decoded⟩
  refine (checkPrivilege_reads _ d).bind_ends (fun _ _ => ?_) fun e h => ⟨.inr ⟨d, rfl⟩, h⟩
  have settled' : (m.remember d).Settled := settled
  have obeys := Instruction.obeys_of_decode decoded
  refine (resolveAll_reads settled' ip obeys 0 (ip + 1)).bind_ends ?_
    fun e h => ⟨.inr ⟨d, rfl⟩, h⟩
  rintro ⟨os, cursor⟩ ⟨resolved, -⟩
  exact .pure ⟨⟨d, rfl⟩, prepared_of_obeys obeys resolved _ _⟩

/-- An instruction that is remembered does not matter. -/
theorem ResolvedFrom.of_remember {i : Instruction} {cursor : Word} {ds : List OperandDescriptor}
    {os : List ResolvedOperand} (h : (m.remember i).ResolvedFrom cursor ds os) :
    m.ResolvedFrom cursor ds os := by
  intro k d o operand resolved
  obtain ⟨fetched, stands⟩ := h k d o operand resolved
  exact ⟨fetched, stands⟩

/-- What a resolved instruction was made from. -/
structure PreparedFrom (m : Machine) (ip : Word) (d : Instruction) (i : ResolvedInstruction) :
    Prop where
  fetched : (fetchInstruction ip).outcome m = .ok d
  ran : prepare ip m = .ok i (m.remember d)
  decoded : Instruction.decode (m.memory.get ip) = .ok d
  opcode : i.opcode = d.opcode
  start : i.ip = ip
  /-- The cursor has come to the end of the instruction. -/
  nextIp : i.nextIp = ip + UInt32.ofNat d.length
  count : i.operands.length = d.operands.length
  operands : m.ResolvedFrom (ip + 1) d.operands i.operands

theorem preparedFrom_of_prepare (settled : m.Settled) {ip : Word} {i : ResolvedInstruction}
    (prepared : (prepare ip).outcome m = .ok i) : ∃ d, m.PreparedFrom ip d i := by
  have ran := Action.eq_ok_of_outcome prepared
  have ends : (prepare ip).Ends m (fun i m' => prepare ip m = .ok i m' → ∃ d, m.PreparedFrom ip d i)
      (fun _ _ => True) := by
    refine .bind (fetchInstruction_ends settled ip).outcome ?_ fun _ _ _ => trivial
    rintro d _ ⟨⟨rfl, decoded⟩, fetched⟩
    refine (checkPrivilege_reads _ d).bind_ends (fun _ _ => ?_) fun _ _ => trivial
    have settled' : (m.remember d).Settled := settled
    refine (resolveAll_reads settled' ip (Instruction.obeys_of_decode decoded) 0
      (ip + 1)).bind_ends ?_ fun _ _ => trivial
    rintro ⟨os, _⟩ ⟨resolved, operands, rfl⟩
    exact .pure fun ran => ⟨d, fetched, ran, decoded, rfl, rfl, cursor_eq_add_length ip d,
      resolved.length_eq.symm, operands.of_remember⟩
  exact ends.ok ran ran

end Machine

end WordMachine
