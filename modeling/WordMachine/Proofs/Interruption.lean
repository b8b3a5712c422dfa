import WordMachine.Proofs.Mapping
import WordMachine.Proofs.Switch

/-!
# Why an instruction is interrupted

An instruction that ends with a fault has a `Cause`.  `Broken` says of each
cause when it is the one: which checks have passed before, what the instruction
is, and whether a guest runs.  The checks come in a fixed order.  The word is
fetched and decoded, then the privilege level is compared, then the operands are
resolved from the first to the last, and then the instruction is performed.

Every fault has a cause (`broken_of_fault`), and a cause determines the fault
(`Broken.faults`).  Accesses that miss the mapping are collected by
`OnlyMisses`: work that consists of translations fails only with the violation
of an offset the machine lacks.
-/

namespace WordMachine

/-- The control register that an operand names, if it names one. -/
def OperandDescriptor.control? (d : OperandDescriptor) : Option ControlRegister :=
  if d.kind = .control then ControlRegister.ofIndex? d.register else none

/-- What ends a step before its instruction is complete. -/
inductive Cause where
  /-- A timer interrupt is delivered instead. -/
  | timer
  /-- An access outside the selected segment. -/
  | segmentViolation (kind : SegmentKind) (offset : Word)
  /-- The word is no instruction. -/
  | decodeError
  /-- `VMRESUME` names no guest. -/
  | invalidSlot
  /-- A division by zero. -/
  | divideByZero
  /-- The privilege level is too low. -/
  | privilege
  /-- `INT`. -/
  | software (number : Word)
  /-- `HALT` in a guest. -/
  | halt
  /-- `PRINT` in a guest. -/
  | print (value : Word)
  /-- `VMRESUME` in a guest. -/
  | resume (slot : Word)
  /-- A control register as the second operand in a guest. -/
  | controlRead (r : ControlRegister)
  /-- A control register as the first operand in a guest. -/
  | controlWrite (r : ControlRegister)
  /-- `CLI` or `STI` in a guest. -/
  | interruptControl
deriving DecidableEq, Repr

/-! ## What a handler finds -/

/-- What a handler is told of an interruption. -/
structure InterruptRecord where
  /-- The number of the interrupt, or the number of the reason for which a guest was left. -/
  number : Word
  /-- Where the interrupted program goes on. -/
  resumeIp : Word
  /-- Further words, the first one deepest. -/
  extra : List Word
deriving DecidableEq, Repr

/-- What the handler of the host is told, if the instruction at `ip`, with another one at `next`,
is interrupted in the host. -/
def Cause.hostRecord? (ip next : Word) : Cause → Option InterruptRecord
  | timer => some ⟨5, ip, []⟩
  | segmentViolation kind offset => some ⟨1, ip, [offset, kind.number]⟩
  | decodeError => some ⟨2, ip, []⟩
  | invalidSlot => some ⟨2, ip, []⟩
  | divideByZero => some ⟨3, ip, []⟩
  | privilege => some ⟨7, ip, []⟩
  | software number => some ⟨6, next, [number]⟩
  | halt | print _ | resume _ | controlRead _ | controlWrite _ | interruptControl => none

/-- What the host is told, if the instruction at `ip`, with another one at `next`, is interrupted in
a guest. -/
def Cause.guestRecord? (ip next : Word) : Cause → Option InterruptRecord
  | timer => some ⟨11, ip, []⟩
  | segmentViolation kind offset => some ⟨0, ip, [offset, kind.number]⟩
  | decodeError => some ⟨1, ip, []⟩
  | divideByZero => some ⟨2, ip, []⟩
  | privilege => some ⟨5, ip, []⟩
  | software number => some ⟨4, next, [number]⟩
  | halt => some ⟨8, next, []⟩
  | print value => some ⟨9, next, [value]⟩
  | resume slot => some ⟨10, ip, [slot]⟩
  | controlRead r => some ⟨6, ip, [UInt32.ofNat r.index]⟩
  | controlWrite r => some ⟨7, ip, [UInt32.ofNat r.index]⟩
  | interruptControl => some ⟨7, ip, [9]⟩
  | invalidSlot => none

/-- What the handler of the host is told of an exit. -/
def Exit.hostRecord (e : Exit) : InterruptRecord := ⟨e.number, e.resumeIp, e.extra⟩

/-- What the host is told of an exit of a guest. -/
def Exit.guestRecord (e : Exit) : InterruptRecord := ⟨e.reason.number, e.resumeIp, e.extra⟩

namespace Machine

variable {α β : Type} {m m' : Machine} {i : ResolvedInstruction} {ip : Word} {c : Cause}

/-! ## Accesses that miss -/

/-- Whether an access of a kind of segment finds no cell.  An access to a register is recorded with
the number of the register. -/
def LacksCell (m : Machine) (kind : SegmentKind) (offset : Word) : Prop :=
  (∃ space : AddressSpace, space.kind = kind ∧ m.reaches space offset = false) ∨
    kind = .register ∧ ∃ index < registerCount, offset = UInt32.ofNat index ∧
      m.registerCell? index = none

/-- Whether an exception is the violation of an offset that the machine lacks. -/
def Missed (m : Machine) (e : Exception) : Prop :=
  ∃ kind offset, e = .fault (.segmentViolation kind offset) ∧ m.LacksCell kind offset

theorem Missed.of_sameMapping (same : ∀ space, SameMapping space m m') {e : Exception}
    (h : m'.Missed e) : m.Missed e := by
  obtain ⟨kind, offset, rfl, lacks⟩ := h
  refine ⟨kind, offset, rfl, ?_⟩
  unfold LacksCell at *
  simpa only [(same _).reaches, (same .register).registerCell?] using lacks

/-- Work that keeps every mapping, and fails only if an access misses. -/
def OnlyMisses (x : Action Exception α) : Prop :=
  ∀ m : Machine, m.Settled →
    x.Ends m (fun _ m' => ∀ space, SameMapping space m m') (fun e _ => m.Missed e)

namespace OnlyMisses

theorem pure (a : α) : OnlyMisses (Pure.pure a : Action Exception α) :=
  fun m _ space => .refl space m

theorem bind {x : Action Exception α} {f : α → Action Exception β} (first : OnlyMisses x)
    (next : ∀ a, OnlyMisses (f a)) : OnlyMisses (x >>= f) := by
  intro m settled
  refine Action.Ends.bind (first m settled) (fun a m₁ same => ?_) fun _ _ h => h
  refine (next a m₁ ((same .code).settled settled)).imp (fun _ m₂ same₁ space => ?_)
    fun e _ missed => missed.of_sameMapping same
  exact (same space).trans (same₁ space)

theorem processorState : OnlyMisses (processorState : Action Exception Processor) :=
  fun m _ space => .refl space m

theorem readCell (a : Word) : OnlyMisses (readCell a : Action Exception Word) :=
  fun m _ space => .refl space m

theorem writeCell (a v : Word) : OnlyMisses (writeCell a v : Action Exception Unit) :=
  fun _ _ _ => ⟨rfl, rfl, rfl⟩

theorem moveSp (f : Processor → Word) :
    OnlyMisses (modifyProcessor fun p => { p with sp := f p } : Action Exception Unit) :=
  fun m _ space => .of_localChange (.withSp m (f m.processor)) space

theorem translate (space : AddressSpace) (offset : Word) :
    OnlyMisses (translate space offset) := by
  intro m settled
  have eq := translate_eq settled space offset
  split at eq
  next => exact .of_ok eq fun space => .refl space m
  next missed => exact .of_error eq ⟨_, _, rfl, .inl ⟨space, rfl, by simpa using missed⟩⟩

theorem registerAddress {index : Nat} (small : index < registerCount) :
    OnlyMisses (registerAddress index) := by
  intro m settled
  have eq := registerAddress_eq settled small
  cases cell : m.registerCell? index with
  | some a => exact .of_ok (by rw [eq, cell]) fun space => .refl space m
  | none =>
    exact .of_error (by rw [eq, cell]) ⟨_, _, rfl, .inr ⟨rfl, index, small, rfl, cell⟩⟩

theorem readRegister {index : Nat} (small : index < registerCount) :
    OnlyMisses (readRegister index) :=
  (registerAddress small).bind readCell

theorem writeRegister {index : Nat} (small : index < registerCount) (v : Word) :
    OnlyMisses (writeRegister index v) :=
  (registerAddress small).bind fun a => writeCell a v

theorem fetch (offset : Word) : OnlyMisses (fetch offset) :=
  (translate .code offset).bind readCell

theorem push (v : Word) : OnlyMisses (push v) :=
  processorState.bind fun p => (translate .stack (p.sp - 1)).bind fun a =>
    (writeCell a v).bind fun _ => moveSp fun _ => p.sp - 1

theorem pop : OnlyMisses pop :=
  processorState.bind fun p => (translate .stack p.sp).bind fun a =>
    (readCell a).bind fun v => (moveSp fun _ => p.sp + 1).bind fun _ => .pure v

theorem fetchExtra (cursor : Word) : OnlyMisses (fetchExtra cursor) :=
  (fetch cursor).bind fun _ => .pure _

theorem operandAddress (d : OperandDescriptor) (literal : Word) :
    OnlyMisses (operandAddress d literal) := by
  have base : OnlyMisses (baseValue d) := by
    unfold baseValue
    cases known : d.base? with
    | none => exact .pure 0
    | some index => exact readRegister (d.lt_of_base? known)
  refine base.bind fun b => ?_
  refine (translate d.kind.space (literal + b)).bind fun address => ?_
  cases d.kind.isDouble with
  | false => exact .pure address
  | true => exact (readCell address).bind fun pointer => translate d.kind.space pointer

theorem resolveMemory (cursor : Word) (d : OperandDescriptor) :
    OnlyMisses (resolveMemory cursor d) :=
  (fetchExtra cursor).bind fun _ => (operandAddress d _).bind fun a =>
    (readCell a).bind fun _ => .pure _

theorem performEnter (i : ResolvedInstruction) : OnlyMisses (performEnter i) :=
  (readRegister (by decide)).bind fun saved => (push saved).bind fun _ =>
    processorState.bind fun p => (writeRegister (by decide) p.sp).bind fun _ =>
      (moveSp fun _ => p.sp - i.first).bind fun _ => .pure _

theorem performLeave : OnlyMisses performLeave :=
  (readRegister (by decide)).bind fun frame => (moveSp fun _ => frame).bind fun _ =>
    pop.bind fun saved => (writeRegister (by decide) saved).bind fun _ => .pure _

theorem performGetArgument (i : ResolvedInstruction) : OnlyMisses (performGetArgument i) :=
  (readRegister (by decide)).bind fun frame =>
    (translate .stack (frame + 2 + i.second)).bind fun a => (readCell a).bind fun _ => .pure _

end OnlyMisses

/-! ## Causes -/

/-- Whether the word at an offset can be fetched and is an instruction. -/
structure Decodes (m : Machine) (ip : Word) (d : Instruction) : Prop where
  fetched : m.reaches .code ip = true
  decoded : Instruction.decode (m.memory.get ip) = .ok d

/-- Whether an instruction can be fetched and the privilege level is high enough for it. -/
structure Allows (m : Machine) (ip : Word) (d : Instruction) : Prop extends Decodes m ip d where
  privileged : d.privilege.toUInt32 ≤ m.processor.privilege

/-- Why the instruction at an offset is interrupted on a machine that has read its segment
table. -/
inductive Broken (m : Machine) (ip : Word) : Cause → Prop
  | segmentViolation {kind : SegmentKind} {offset : Word}
      (faulted : (executeAt ip).outcome m = .error (.fault (.segmentViolation kind offset)))
      (lacks : m.LacksCell kind offset) : Broken m ip (.segmentViolation kind offset)
  | decodeError {e : DecodeError} (fetched : m.reaches .code ip = true)
      (undecodable : Instruction.decode (m.memory.get ip) = .error e) : Broken m ip .decodeError
  | privilege {d : Instruction} (decodes : m.Decodes ip d)
      (low : m.processor.privilege < d.privilege.toUInt32) : Broken m ip .privilege
  | controlWrite {d : Instruction} {o : OperandDescriptor} {r : ControlRegister}
      (allows : m.Allows ip d) (guest : m.processor.inGuest = true)
      (operand : d.operands[0]? = some o) (named : o.control? = some r) :
      Broken m ip (.controlWrite r)
  /-- The first operand has been resolved. -/
  | controlRead {d : Instruction} {o : OperandDescriptor} {r : ControlRegister}
      {first : List ResolvedOperand × Word} (allows : m.Allows ip d) (guest : m.processor.inGuest = true)
      (operand : d.operands[1]? = some o) (named : o.control? = some r)
      (resolved :
        (resolveAll ip 0 (ip + 1) (d.operands.take 1)).outcome (m.remember d) = .ok first) :
      Broken m ip (.controlRead r)
  | divideByZero {i : ResolvedInstruction} (prepared : (prepare ip).outcome m = .ok i)
      (opcode : i.opcode = .div ∨ i.opcode = .mod) (zero : i.second = 0) : Broken m ip .divideByZero
  | software {i : ResolvedInstruction} (prepared : (prepare ip).outcome m = .ok i)
      (opcode : i.opcode = .int) : Broken m ip (.software i.first)
  | invalidSlot {i : ResolvedInstruction} {rows : List Context}
      (prepared : (prepare ip).outcome m = .ok i) (opcode : i.opcode = .vmResume)
      (host : m.processor.inGuest = false) (known : guestRows.outcome m = .ok rows)
      (bad : i.first = hostSlot ∨ rows.length ≤ i.first.toNat) : Broken m ip .invalidSlot
  | halt {i : ResolvedInstruction} (prepared : (prepare ip).outcome m = .ok i)
      (opcode : i.opcode = .halt) (guest : m.processor.inGuest = true) : Broken m ip .halt
  | print {i : ResolvedInstruction} (prepared : (prepare ip).outcome m = .ok i)
      (opcode : i.opcode = .print) (guest : m.processor.inGuest = true) :
      Broken m ip (.print i.first)
  | resume {i : ResolvedInstruction} (prepared : (prepare ip).outcome m = .ok i)
      (opcode : i.opcode = .vmResume) (guest : m.processor.inGuest = true) :
      Broken m ip (.resume i.first)
  | interruptControl {i : ResolvedInstruction} (prepared : (prepare ip).outcome m = .ok i)
      (opcode : i.opcode = .cli ∨ i.opcode = .sti) (guest : m.processor.inGuest = true) :
      Broken m ip .interruptControl

/-! ## Every fault has a cause -/

/-- How resolving operands fails: an access misses, or an operand of a guest names a control
register after those before it were resolved. -/
def Unresolved (m : Machine) (ip : Word) (position : Nat) (cursor : Word)
    (ds : List OperandDescriptor) (e : Exception) : Prop :=
  m.Missed e ∨ m.processor.inGuest = true ∧ ∃ k d r os, ds[k]? = some d ∧ d.control? = some r ∧
    resolveAll ip position cursor (ds.take k) m = .ok os m

theorem resolve_fails (settled : m.Settled) (ip : Word) (position : Nat) (cursor : Word)
    {d : OperandDescriptor} (named : d.isNamed = true) :
    (resolve ip position cursor d).Ends m (fun _ _ => True) (fun e _ => m.Missed e ∨
      m.processor.inGuest = true ∧ ∃ r, d.control? = some r) := by
  have weaken {x : Action Exception (ResolvedOperand × Word)} (misses : OnlyMisses x) :
      x.Ends m (fun _ _ => True) (fun e _ => m.Missed e ∨
        m.processor.inGuest = true ∧ ∃ r, d.control? = some r) :=
    (misses m settled).imp (fun _ _ _ => True.intro) fun _ _ missed => .inl missed
  unfold resolve
  cases kind : d.kind with
  | immediate => exact weaken ((OnlyMisses.fetchExtra cursor).bind fun _ => .pure _)
  | register =>
    have small := d.lt_of_isNamed kind named
    exact weaken ((OnlyMisses.readRegister small).bind fun _ => .pure _)
  | control =>
    obtain ⟨r, known⟩ : ∃ r, ControlRegister.ofIndex? d.register = some r := by
      simpa [OperandDescriptor.isNamed, kind, Option.isSome_iff_exists] using named
    have control : d.control? = some r := by rw [OperandDescriptor.control?, if_pos kind, known]
    have traps : (resolveControl ip position d.register).Ends m (fun _ _ => True)
        (fun e _ => m.Missed e ∨ m.processor.inGuest = true ∧ ∃ r, d.control? = some r) := by
      unfold resolveControl
      simp only [known]
      refine (processorState_reads m).bind_ends (F := fun _ => False) ?_ fun _ h => h.elim
      rintro _ rfl
      cases guest : m.processor.inGuest with
      | true => exact .throw (.inr ⟨rfl, r, control⟩)
      | false => exact .pure True.intro
    exact .bind traps (fun _ _ _ => .pure True.intro) fun _ _ h => h
  | singleDs | singleEs | doubleDs | doubleEs =>
    exact weaken (.resolveMemory cursor d)

theorem resolveAll_fails (settled : m.Settled) (ip : Word) {classes : List OperandClass}
    {ds : List OperandDescriptor} (obey : Instruction.operandsObey classes ds = true)
    (position : Nat) (cursor : Word) :
    (resolveAll ip position cursor ds).Ends m (fun _ _ => True)
      (fun e _ => m.Unresolved ip position cursor ds e) := by
  induction ds generalizing classes position cursor with
  | nil => exact .pure True.intro
  | cons d ds ih =>
    obtain ⟨named, classes, obey⟩ := Instruction.operandsObey_of_cons obey
    have reads := resolve_reads settled ip position cursor named
    have fails := resolve_fails settled ip position cursor named
    cases first : resolve ip position cursor d m with
    | error e m' =>
      refine .of_error (Action.bind_of_error first _) ?_
      rcases fails.error first with missed | ⟨guest, r, control⟩
      · exact .inl missed
      · exact .inr ⟨guest, 0, d, r, ([], cursor), rfl, control, rfl⟩
    | ok o m' =>
      obtain ⟨rfl, -⟩ := Action.Ends.ok reads first
      unfold Action.Ends
      rw [show resolveAll ip position cursor (d :: ds) m' = _ from Action.bind_of_ok first _]
      refine Action.Ends.bind (ih obey (position + 1) _) (fun _ _ _ => .pure True.intro) ?_
      rintro e - (missed | ⟨guest, k, d', r, os, found, control, resolved⟩)
      · exact .inl missed
      · refine .inr ⟨guest, k + 1, d', r, (o.1 :: os.1, os.2), found, control, ?_⟩
        exact (Action.bind_of_ok first _).trans (Action.bind_of_ok resolved _)

/-- An instruction that cannot be prepared has missed an access, or is interrupted for a cause. -/
theorem prepare_fails (settled : m.Settled) (ip : Word) :
    (prepare ip).Ends m (fun _ _ => True) (fun e _ => m.Missed e ∨ ∃ c, m.Broken ip c) := by
  have fetches : (fetchInstruction ip).Ends m (fun d m' => m' = m.remember d ∧ m.Decodes ip d)
      (fun e _ => m.Missed e ∨ ∃ c, m.Broken ip c) := by
    have reads := fetch_reads settled ip
    cases fetched : fetch ip m with
    | error e m' =>
      exact .of_error (Action.bind_of_error fetched _)
        (.inl ((OnlyMisses.fetch ip m settled).error fetched))
    | ok w m' =>
      obtain ⟨rfl, rfl, reached⟩ := Action.Ends.ok reads fetched
      unfold Action.Ends
      rw [show fetchInstruction ip m' = _ from Action.bind_of_ok fetched _]
      cases decoded : Instruction.decode (m'.memory.get ip) with
      | error e => exact .inr ⟨_, .decodeError reached decoded⟩
      | ok d => exact ⟨rfl, reached, decoded⟩
  refine .bind fetches ?_ fun _ _ h => h
  rintro d _ ⟨rfl, decodes⟩
  by_cases low : (m.remember d).processor.privilege < d.privilege.toUInt32
  · exact .of_error (Action.bind_of_error (checkPrivilege_of_lt low) _)
      (.inr ⟨_, .privilege decodes low⟩)
  have enough := UInt32.not_lt.mp low
  unfold Action.Ends
  rw [Action.bind_of_ok (checkPrivilege_of_le enough)]
  have allows : m.Allows ip d := ⟨decodes, enough⟩
  have obeys := Instruction.obeys_of_decode decodes.decoded
  have remembered : LocalChange m (m.remember d) := .remember m d
  refine Action.Ends.bind (resolveAll_fails (remembered.settled settled) ip obeys 0 (ip + 1))
    (fun _ _ _ => .pure True.intro) ?_
  rintro e - (missed | ⟨guest, k, o, r, os, operand, named, resolved⟩)
  · exact .inl (missed.of_sameMapping fun space => .of_localChange remembered space)
  · right
    -- There are at most two operands.
    match k with
    | 0 => exact ⟨_, .controlWrite allows guest operand named⟩
    | 1 =>
      have first : (resolveAll ip 0 (ip + 1) (d.operands.take 1)).outcome (m.remember d) =
          .ok os := by
        simp [Action.outcome, resolved]
      exact ⟨_, .controlRead allows guest operand named first⟩
    | k + 2 =>
      have few : d.operands.length ≤ 2 := by
        rw [Instruction.length_of_operandsObey obeys]
        exact Opcode.arity_le d.opcode
      have := (List.getElem?_eq_some_iff.mp operand).1
      omega

/-- What follows `hostOnly` is done in the host. -/
theorem hostOnly_bind_ends {reason : TrapReason} {resumeIp : Word} {extra : List Word}
    {x : Action Exception α} {Q : α → Machine → Prop} {E : Exception → Machine → Prop}
    (host : m.processor.inGuest = false → x.Ends m Q E)
    (guest : ∀ e, m.processor.inGuest = true → E e m) :
    (hostOnly reason resumeIp extra >>= fun _ => x).Ends m Q E := by
  unfold Action.Ends
  cases inside : m.processor.inGuest with
  | true =>
    rw [Action.bind_of_error (hostOnly_of_guest inside _ _ _)]
    exact guest _ inside
  | false =>
    rw [Action.bind_of_ok (hostOnly_of_host inside _ _ _)]
    exact host inside

/-- The guest table is found without regard to the instruction decoded last. -/
theorem guestRows_outcome_remember (m : Machine) (d : Instruction) :
    guestRows.outcome (m.remember d) = guestRows.outcome m := by
  have processor : (m.remember d).processor = m.processor := rfl
  have guests : (m.remember d).guests = m.guests := rfl
  have memory : (m.remember d).memory = m.memory := rfl
  unfold Action.outcome guestRows
  rw [processor, guests, memory]
  cases m.processor.hasGuestTable with
  | false => rfl
  | true => cases m.guests.rows fun _ => m.memory.guestTable m.processor.guestTable <;> rfl

/-- In the host `VMRESUME` ends with a fault only for a slot that is not in the table. -/
theorem performResume_fails (host : m.processor.inGuest = false) :
    (performResume i).Ends m (fun _ _ => True) (fun e _ => e.IsFault →
      ∃ rows, guestRows.outcome m = .ok rows ∧
        (i.first = hostSlot ∨ rows.length ≤ i.first.toNat)) := by
  cases looked : guestRows m with
  | error e m₁ =>
    exact .of_error (performResume_of_unreadable host looked) fun ⟨f, fault⟩ => by cases fault
  | ok rows m₁ =>
    have eq := performResume_of_rows (i := i) host looked
    have known : guestRows.outcome m = .ok rows := by simp [Action.outcome, looked]
    split at eq
    next bad => exact .of_error eq fun _ => ⟨rows, known, bad⟩
    next =>
      unfold Action.Ends
      rw [eq]
      have sure {α : Type} (x : Action FatalError α) (m : Machine) :
          Sure (liftM x : Action Exception α) m := by
        refine .lift ((Action.Ends.trivial x m).imp (fun _ _ h => h) ?_)
        rintro e _ - ⟨f, fault⟩
        cases fault
      have rest : Sure (do
          saveHostSlot
          enterGuest i.first
          return { control := .redirected } : Action Exception Outcome) (m₁.goto i.nextIp) :=
        (sure saveHostSlot _).bind fun _ m₂ => (sure (enterGuest i.first) m₂).bind fun _ _ =>
          True.intro
      exact Action.Ends.imp rest (fun _ _ h => h) fun _ _ noFault fault => absurd fault noFault

/-- Arithmetic ends with a fault only for a division by zero. -/
theorem performArithmetic_fails (m : Machine) (i : ResolvedInstruction) :
    (performArithmetic i).Ends m (fun _ _ => True)
      (fun e _ => e.IsFault → (i.opcode = .div ∨ i.opcode = .mod) ∧ i.second = 0) := by
  unfold performArithmetic
  cases op : ArithmeticOp.ofOpcode? i.opcode with
  | none => exact .throw fun ⟨f, fault⟩ => by cases fault
  | some a =>
    cases value : a.evaluate? i.first i.second with
    | some v => simp only [value]; exact .pure True.intro
    | none =>
      simp only [value]
      refine .throw fun _ => ?_
      obtain ⟨divides, zero⟩ := (ArithmeticOp.evaluate?_eq_none_iff a _ _).mp value
      refine ⟨?_, zero⟩
      rcases divides with rfl | rfl <;> cases opcode : i.opcode <;>
        simp_all [ArithmeticOp.ofOpcode?]

/-- An instruction that ends with a fault when it is performed has missed an access, or is
interrupted for a cause. -/
theorem perform_fails (settled : m.Settled) (prepared : (prepare ip).outcome m = .ok i)
    (d : Instruction) :
    (perform i).Ends (m.remember d) (fun _ _ => True)
      (fun e _ => e.IsFault → m.Missed e ∨ ∃ c, m.Broken ip c) := by
  have remembered : LocalChange m (m.remember d) := .remember m d
  have misses {x : Action Exception Outcome} (h : OnlyMisses x) :
      x.Ends (m.remember d) (fun _ _ => True)
        (fun e _ => e.IsFault → m.Missed e ∨ ∃ c, m.Broken ip c) :=
    (h _ (remembered.settled settled)).imp (fun _ _ _ => True.intro) fun _ _ missed _ =>
      .inl (missed.of_sameMapping fun space => .of_localChange remembered space)
  have surely {x : Action Exception Outcome} {m' : Machine} (sure : Sure x m') :
      x.Ends m' (fun _ _ => True) (fun e _ => e.IsFault → m.Missed e ∨ ∃ c, m.Broken ip c) :=
    Action.Ends.imp sure (fun _ _ h => h) fun _ _ noFault fault => absurd fault noFault
  unfold perform
  cases opcode : i.opcode
  case add | sub | mul | div | mod | or | xor | and | not | shl | shr =>
    refine (performArithmetic_fails _ i).imp (fun _ _ h => h) fun _ _ fails fault => ?_
    obtain ⟨divides, zero⟩ := fails fault
    exact .inr ⟨_, .divideByZero prepared divides zero⟩
  case mov | nop | cmp => exact surely True.intro
  case jmp | jz | jnz | jgt | jge =>
    refine surely ?_
    unfold performBranch
    cases condition : Condition.ofOpcode? i.opcode with
    | none => exact .throw fun ⟨f, fault⟩ => by cases fault
    | some c =>
      refine (processorState_reads _).bind_ends (F := fun _ => False) ?_ fun _ h => h.elim
      rintro p -
      split <;> exact True.intro
  case halt =>
    exact hostOnly_bind_ends (fun _ => surely True.intro)
      fun _ guest _ => .inr ⟨_, .halt prepared opcode guest⟩
  case print =>
    exact hostOnly_bind_ends (fun _ => surely True.intro)
      fun _ guest _ => .inr ⟨_, .print prepared opcode guest⟩
  case cli =>
    exact hostOnly_bind_ends (fun _ => surely True.intro)
      fun _ guest _ => .inr ⟨_, .interruptControl prepared (.inl opcode) guest⟩
  case sti =>
    exact hostOnly_bind_ends (fun _ => surely True.intro)
      fun _ guest _ => .inr ⟨_, .interruptControl prepared (.inr opcode) guest⟩
  case call => exact misses ((OnlyMisses.push _).bind fun _ => .pure _)
  case push => exact misses ((OnlyMisses.push _).bind fun _ => .pure _)
  case ret | reti | pop => exact misses (OnlyMisses.pop.bind fun _ => .pure _)
  case retn =>
    exact misses (OnlyMisses.pop.bind fun target =>
      (OnlyMisses.moveSp fun p => p.sp + i.first).bind fun _ => .pure _)
  case enter => exact misses (OnlyMisses.performEnter i)
  case leave => exact misses OnlyMisses.performLeave
  case getArgument => exact misses (OnlyMisses.performGetArgument i)
  case int => exact .throw fun _ => .inr ⟨_, .software prepared opcode⟩
  case vmResume =>
    cases guest : m.processor.inGuest with
    | true =>
      exact .of_error (performResume_of_guest (m := m.remember d) guest) fun _ =>
        .inr ⟨_, .resume prepared opcode guest⟩
    | false =>
      refine (performResume_fails (m := m.remember d) guest).imp (fun _ _ h => h)
        fun _ _ fails fault => ?_
      obtain ⟨rows, known, bad⟩ := fails fault
      rw [guestRows_outcome_remember] at known
      exact .inr ⟨_, .invalidSlot prepared opcode guest known bad⟩

/-- Every fault of an instruction has a cause. -/
theorem broken_of_fault (settled : m.Settled) {f : Fault}
    (faulted : executeAt ip m = .error (.fault f) m') : ∃ c, m.Broken ip c := by
  have outcome : (executeAt ip).outcome m = .error (.fault f) := by simp [Action.outcome, faulted]
  have ends : (executeAt ip).Ends m (fun _ _ => True)
      (fun e _ => e.IsFault → m.Missed e ∨ ∃ c, m.Broken ip c) := by
    cases ran : prepare ip m with
    | error e m₁ =>
      exact .of_error (Action.bind_of_error ran _) fun _ => (prepare_fails settled ip).error ran
    | ok i m₁ =>
      obtain ⟨⟨d, rfl⟩, valid⟩ := (prepare_ends settled ip).ok ran
      have cell := (prepare_hasCell settled ip).ok ran
      have prepared : (prepare ip).outcome m = .ok i := by simp [Action.outcome, ran]
      have settled' : (m.remember d).Settled := settled
      unfold Action.Ends
      rw [show executeAt ip m = _ from Action.bind_of_ok ran _]
      refine Action.Ends.bind ((perform_ends settled').and (perform_fails settled prepared d)) ?_
        fun _ _ h => h.2
      rintro o m₂ ⟨performed, -⟩
      -- Once the instruction was performed nothing can fault.
      exact Action.Ends.imp (finish_sure settled' valid cell performed) (fun _ _ h => h)
        fun _ _ noFault fault => absurd fault noFault
  rcases ends.error faulted ⟨f, rfl⟩ with ⟨kind, offset, same, lacks⟩ | cause
  · exact ⟨_, .segmentViolation (outcome.trans (congrArg _ same)) lacks⟩
  · exact cause

/-! ## A cause determines the fault -/

/-- The offset after the instruction at an offset. -/
def nextOffset (m : Machine) (ip : Word) : Word :=
  match Instruction.decode (m.memory.get ip) with
  | .ok d => ip + UInt32.ofNat d.length
  | .error _ => ip + 1

/-- Where a prepared instruction and the one after it are. -/
theorem offsets_of_prepare (settled : m.Settled) (prepared : (prepare ip).outcome m = .ok i) :
    i.ip = ip ∧ i.nextIp = m.nextOffset ip := by
  obtain ⟨d, made⟩ := preparedFrom_of_prepare settled prepared
  refine ⟨made.start, ?_⟩
  simp only [nextOffset, made.decoded, made.nextIp]

theorem outcome_of_prepare_error {e : Exception} (failed : prepare ip m = .error e m') :
    (executeAt ip).outcome m = .error e := by
  have stops : executeAt ip m = .error e m' := Action.bind_of_error failed _
  simp [Action.outcome, stops]

theorem outcome_of_perform_error {e : Exception} (settled : m.Settled)
    (prepared : (prepare ip).outcome m = .ok i)
    (failed : ∀ d, (perform i).outcome (m.remember d) = .error e) :
    (executeAt ip).outcome m = .error e := by
  have ran := Action.eq_ok_of_outcome prepared
  obtain ⟨⟨d, same⟩, -⟩ := (prepare_ends settled ip).ok ran
  rw [same] at ran
  have stops : executeAt ip m = .error e ((perform i).after (m.remember d)) :=
    (Action.bind_of_ok ran _).trans (Action.bind_of_error (Action.eq_error_of_outcome (failed d)) _)
  simp [Action.outcome, stops]

theorem fetch_of_reaches (settled : m.Settled) (reached : m.reaches .code ip = true) :
    fetch ip m = .ok (m.memory.get ip) m := by
  have address := translate_eq settled .code ip
  rw [if_pos reached] at address
  exact Action.bind_of_ok address _

theorem Decodes.fetchInstruction {d : Instruction} (h : m.Decodes ip d) (settled : m.Settled) :
    fetchInstruction ip m = .ok d (m.remember d) := by
  refine (Action.bind_of_ok (fetch_of_reaches settled h.fetched) _).trans ?_
  simp only [h.decoded]
  rfl

theorem Decodes.prepare_of_lt {d : Instruction} (h : m.Decodes ip d) (settled : m.Settled)
    (low : m.processor.privilege < d.privilege.toUInt32) :
    prepare ip m = .error (.fault (.privilegeViolation d.privilege m.processor.privilege))
      (m.remember d) :=
  (Action.bind_of_ok (h.fetchInstruction settled) _).trans
    (Action.bind_of_error (checkPrivilege_of_lt (m := m.remember d) low) _)

theorem Allows.prepare {d : Instruction} (h : m.Allows ip d) (settled : m.Settled) :
    prepare ip m = (resolveAll ip 0 (ip + 1) d.operands >>= fun os =>
      pure ⟨d.opcode, ip, os.2, os.1⟩ :
        Action Exception ResolvedInstruction) (m.remember d) :=
  (Action.bind_of_ok (h.fetchInstruction settled) _).trans
    (Action.bind_of_ok (checkPrivilege_of_le (m := m.remember d) h.privileged) _)

/-- A guest that names a control register traps. -/
theorem resolve_of_control (guest : m.processor.inGuest = true) (ip : Word) (position : Nat)
    (cursor : Word) {o : OperandDescriptor} {r : ControlRegister} (named : o.control? = some r) :
    resolve ip position cursor o m = .error (.fault (.guestTrap
      (if position = 0 then .controlRegisterWrite else .controlRegisterRead) ip
      [UInt32.ofNat r.index])) m := by
  unfold OperandDescriptor.control? at named
  split at named
  next kind =>
    have traps : resolveControl ip position o.register m = .error (.fault (.guestTrap
        (if position = 0 then .controlRegisterWrite else .controlRegisterRead) ip
        [UInt32.ofNat r.index])) m := by
      unfold resolveControl
      simp only [named]
      show (if m.processor.inGuest then _ else _ : Action Exception ResolvedOperand) m = _
      rw [if_pos guest]
      rfl
    unfold resolve
    simp only [kind]
    exact Action.bind_of_error traps _
  next => cases named

/-- The first operand of an instruction whose second one is about to be resolved. -/
theorem resolve_of_resolveAll_take {cursor : Word} {ds : List OperandDescriptor}
    {o : OperandDescriptor} {os : List ResolvedOperand × Word} (second : ds[1]? = some o)
    (resolved : (resolveAll ip 0 cursor (ds.take 1)).outcome m = .ok os) :
    ∃ d rest r, ds = d :: o :: rest ∧ (resolve ip 0 cursor d).outcome m = .ok r := by
  match ds with
  | [] | [_] => simp at second
  | d :: o' :: rest =>
    obtain rfl : o' = o := by simpa using second
    have first := Action.eq_ok_of_outcome resolved
    cases found : resolve ip 0 cursor d m with
    | ok r m' => exact ⟨d, rest, r, rfl, by simp [Action.outcome, found]⟩
    | error e m' =>
      rw [show resolveAll ip 0 cursor ((d :: o' :: rest).take 1) m = _ from
        Action.bind_of_error found _] at first
      cases first

/-- What is for the host only traps in a guest. -/
theorem outcome_of_trap {reason : TrapReason} {resumeIp : Word} {extra : List Word}
    {x : Unit → Action Exception Outcome} (settled : m.Settled)
    (prepared : (prepare ip).outcome m = .ok i) (guest : m.processor.inGuest = true)
    (performs : perform i = hostOnly reason resumeIp extra >>= x) :
    (executeAt ip).outcome m = .error (.fault (.guestTrap reason resumeIp extra)) := by
  refine outcome_of_perform_error settled prepared fun d => ?_
  rw [Action.outcome, perform_of_guest (m := m.remember d) guest performs]

/-- Whether delivering a fault tells a handler what is to be told of a cause. -/
def Tells (m : Machine) (ip : Word) (c : Cause) (f : Fault) : Prop :=
  (m.processor.inGuest = true →
      c.guestRecord? ip (m.nextOffset ip) = some (f.exit ip).guestRecord) ∧
    (m.processor.inGuest = false →
      c.hostRecord? ip (m.nextOffset ip) = some (f.exit ip).hostRecord)

theorem Tells.of_guest {f : Fault} (guest : m.processor.inGuest = true)
    (told : c.guestRecord? ip (m.nextOffset ip) = some (f.exit ip).guestRecord) :
    m.Tells ip c f :=
  ⟨fun _ => told, fun host => by rw [guest] at host; cases host⟩

/-- A cause determines the fault, and with it what a handler is told. -/
theorem Broken.faults (settled : m.Settled) (broken : m.Broken ip c) :
    ∃ f, (executeAt ip).outcome m = .error (.fault f) ∧ m.Tells ip c f := by
  cases broken with
  | segmentViolation faulted lacks => exact ⟨_, faulted, fun _ => rfl, fun _ => rfl⟩
  | @decodeError e fetched undecodable =>
    have failed : fetchInstruction ip m = .error (.fault (.invalidInstruction e)) m := by
      refine (Action.bind_of_ok (fetch_of_reaches settled fetched) _).trans ?_
      simp only [undecodable]
      rfl
    exact ⟨_, outcome_of_prepare_error (Action.bind_of_error failed _), fun _ => rfl, fun _ => rfl⟩
  | @privilege d decodes low =>
    have stops := decodes.prepare_of_lt settled low
    exact ⟨_, outcome_of_prepare_error stops, fun _ => rfl, fun _ => rfl⟩
  | @controlWrite d o r allows guest operand named =>
    obtain ⟨ds, operands⟩ : ∃ ds, d.operands = o :: ds := by
      cases operands : d.operands with
      | nil => simp [operands] at operand
      | cons o' ds => exact ⟨ds, by simpa [operands] using operand⟩
    have failed := resolve_of_control (m := m.remember d) guest ip 0 (ip + 1) named
    have stops := allows.prepare settled
    rw [operands] at stops
    exact ⟨_, outcome_of_prepare_error (stops.trans
      (Action.bind_of_error (Action.bind_of_error failed _) _)), .of_guest guest rfl⟩
  | @controlRead d o r first allows guest operand named resolved =>
    obtain ⟨d₀, rest, r₀, operands, first⟩ := resolve_of_resolveAll_take operand resolved
    have obeys := Instruction.obeys_of_decode allows.decoded
    have named₀ := (Instruction.accepts_of_obeys obeys (k := 0) (d := d₀) (by simp [operands])).2
    have settled' : (m.remember d).Settled := settled
    have ran := Action.eq_ok_of_outcome first
    obtain ⟨same, -⟩ :=
      Action.Ends.ok (resolve_reads settled' ip 0 (ip + 1) named₀) ran
    rw [same] at ran
    have failed (cursor : Word) :=
      resolve_of_control (m := m.remember d) guest ip 1 cursor named
    have stops := allows.prepare settled
    rw [operands] at stops
    exact ⟨_, outcome_of_prepare_error (stops.trans (Action.bind_of_error
      ((Action.bind_of_ok ran _).trans
        (Action.bind_of_error (Action.bind_of_error (failed _) _) _)) _)), .of_guest guest rfl⟩
  | @divideByZero i prepared opcode zero =>
    have failed (d : Instruction) :
        (perform i).outcome (m.remember d) = .error (.fault .divideByZero) := by
      rcases opcode with opcode | opcode <;>
        simp [perform, opcode, performArithmetic, ArithmeticOp.ofOpcode?, ArithmeticOp.evaluate?,
          zero] <;> rfl
    exact ⟨_, outcome_of_perform_error settled prepared failed, fun _ => rfl, fun _ => rfl⟩
  | @software i prepared opcode =>
    have failed (d : Instruction) : (perform i).outcome (m.remember d) =
        .error (.fault (.softwareInterrupt i.first i.nextIp)) := by
      simp only [perform, opcode]
      rfl
    obtain ⟨-, next⟩ := offsets_of_prepare settled prepared
    refine ⟨_, outcome_of_perform_error settled prepared failed, ?_⟩
    unfold Tells
    rw [← next]
    exact ⟨fun _ => rfl, fun _ => rfl⟩
  | @invalidSlot i rows prepared opcode host known bad =>
    have failed (d : Instruction) : (perform i).outcome (m.remember d) =
        .error (.fault (.invalidGuestSlot i.first)) := by
      rw [← guestRows_outcome_remember m d] at known
      have eq := performResume_of_rows (i := i) (m := m.remember d) host
        (Action.eq_ok_of_outcome known)
      rw [if_pos bad] at eq
      simp [perform, opcode, Action.outcome, eq]
    refine ⟨_, outcome_of_perform_error settled prepared failed, fun guest => ?_, fun _ => rfl⟩
    rw [host] at guest
    cases guest
  | @halt i prepared opcode guest =>
    obtain ⟨-, next⟩ := offsets_of_prepare settled prepared
    refine ⟨_, outcome_of_trap settled prepared guest (by simp only [perform, opcode]; rfl),
      .of_guest guest ?_⟩
    rw [← next]
    rfl
  | @print i prepared opcode guest =>
    obtain ⟨-, next⟩ := offsets_of_prepare settled prepared
    refine ⟨_, outcome_of_trap settled prepared guest (by simp only [perform, opcode]; rfl),
      .of_guest guest ?_⟩
    rw [← next]
    rfl
  | @resume i prepared opcode guest =>
    obtain ⟨here, -⟩ := offsets_of_prepare settled prepared
    refine ⟨_, outcome_of_trap settled prepared guest (by simp only [perform, opcode]; rfl),
      .of_guest guest ?_⟩
    rw [here]
    rfl
  | @interruptControl i prepared opcode guest =>
    obtain ⟨here, -⟩ := offsets_of_prepare settled prepared
    have performs : ∃ x, perform i = hostOnly .controlRegisterWrite i.ip
        [UInt32.ofNat ControlRegister.interrupt.index] >>= x := by
      rcases opcode with opcode | opcode <;> simp only [perform, opcode] <;> exact ⟨_, rfl⟩
    obtain ⟨x, performs⟩ := performs
    refine ⟨_, outcome_of_trap settled prepared guest performs, .of_guest guest ?_⟩
    rw [here]
    rfl

end Machine

end WordMachine
