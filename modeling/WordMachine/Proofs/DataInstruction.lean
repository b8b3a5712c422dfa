import Mathlib.Algebra.Group.Nat.Defs
import WordMachine.Proofs.Assembly
import WordMachine.Proofs.FullRange

/-!
# What data instructions mean

A data instruction combines the values of its two operands, or moves the second
one, and writes the result to the cell of the first.  What it computes is
`Opcode.reference`, on the naturals, and the values and the cell are read off the
memory by `Operand.valueIn` and `Operand.cell?`.

`step_of_data` ties this to the words that assembling gives.  It goes from the
words back to the instruction, from there to the resolved operands
(`resolveAll_of_describes`), and from those to the result (`perform_of_data`).
-/

namespace WordMachine

/-! ## Results -/

namespace Opcode

/-- Whether an opcode combines two operands, or moves one. -/
def isData : Opcode → Bool
  | .add | .sub | .mul | .div | .mod | .or | .xor | .and | .not | .shl | .shr | .mov => true
  | _ => false

/-- What a data instruction computes, before it wraps. -/
def reference (o : Opcode) (a b : Nat) : Nat :=
  match o with
  | .add => a + b
  | .sub => a + Word.count - b
  | .mul => a * b
  | .div => a / b
  | .mod => a % b
  | .or => a ||| b
  | .xor | .not => a ^^^ b
  | .and => a &&& b
  | .shl => if b < 32 then a * 2 ^ b else 0
  | .shr => if b < 32 then a / 2 ^ b else 0
  | _ => b

/-- The result of a data instruction. -/
def result (o : Opcode) (a b : Word) : Word := UInt32.ofNat (o.reference a.toNat b.toNat)

/-- Whether a data instruction divides by zero. -/
def dividesByZero (o : Opcode) (b : Word) : Bool := (o = .div ∨ o = .mod) ∧ b = 0

end Opcode

namespace ArithmeticOp

variable (a b : Word)

theorem sub_eq : a - b = UInt32.ofNat (a.toNat + Word.count - b.toNat) := by
  have small := b.toNat_lt
  apply UInt32.toNat_inj.mp
  rw [UInt32.toNat_sub, UInt32.toNat_ofNat', Word.count]
  omega

theorem div_eq : a / b = UInt32.ofNat (a.toNat / b.toNat) := by
  have fits : a.toNat / b.toNat < UInt32.size := Nat.lt_of_le_of_lt (Nat.div_le_self _ _) a.toNat_lt
  apply UInt32.toNat_inj.mp
  rw [UInt32.toNat_div, UInt32.toNat_ofNat_of_lt' fits]

theorem mod_eq : a % b = UInt32.ofNat (a.toNat % b.toNat) := by
  have fits : a.toNat % b.toNat < UInt32.size := Nat.lt_of_le_of_lt (Nat.mod_le _ _) a.toNat_lt
  apply UInt32.toNat_inj.mp
  rw [UInt32.toNat_mod, UInt32.toNat_ofNat_of_lt' fits]

theorem shl_eq : (if b < 32 then a <<< b else 0) =
    UInt32.ofNat (if b.toNat < 32 then a.toNat * 2 ^ b.toNat else 0) := by
  have few_iff : b < 32 ↔ b.toNat < 32 := UInt32.lt_iff_toNat_lt
  by_cases few : b.toNat < 32
  · rw [if_pos (few_iff.mpr few), if_pos few]
    apply UInt32.toNat_inj.mp
    rw [UInt32.toNat_shiftLeft, Nat.mod_eq_of_lt few, Nat.shiftLeft_eq, UInt32.toNat_ofNat']
  · rw [if_neg (mt few_iff.mp few), if_neg few]
    rfl

theorem shr_eq : (if b < 32 then a >>> b else 0) =
    UInt32.ofNat (if b.toNat < 32 then a.toNat / 2 ^ b.toNat else 0) := by
  have few_iff : b < 32 ↔ b.toNat < 32 := UInt32.lt_iff_toNat_lt
  by_cases few : b.toNat < 32
  · have fits : a.toNat / 2 ^ b.toNat < UInt32.size :=
      Nat.lt_of_le_of_lt (Nat.div_le_self _ _) a.toNat_lt
    rw [if_pos (few_iff.mpr few), if_pos few]
    apply UInt32.toNat_inj.mp
    rw [UInt32.toNat_shiftRight, Nat.mod_eq_of_lt few, Nat.shiftRight_eq_div_pow,
      UInt32.toNat_ofNat_of_lt' fits]
  · rw [if_neg (mt few_iff.mp few), if_neg few]
    rfl

/-- Arithmetic on words is arithmetic on naturals that wraps. -/
theorem evaluate?_eq {o : Opcode} {op : ArithmeticOp} (known : ofOpcode? o = some op) :
    op.evaluate? a b = if o.dividesByZero b then none else some (o.result a b) := by
  cases o <;> simp only [ofOpcode?, Option.some.injEq, reduceCtorEq] at known <;> subst known
  case add | mul | or | xor | not | and =>
    simp [evaluate?, Opcode.result, Opcode.reference, Opcode.dividesByZero]
  case sub => simp [evaluate?, sub_eq, Opcode.result, Opcode.reference, Opcode.dividesByZero]
  case div => simp [evaluate?, div_eq, Opcode.result, Opcode.reference, Opcode.dividesByZero]
  case mod => simp [evaluate?, mod_eq, Opcode.result, Opcode.reference, Opcode.dividesByZero]
  case shl => simp [evaluate?, shl_eq, Opcode.result, Opcode.reference, Opcode.dividesByZero]
  case shr => simp [evaluate?, shr_eq, Opcode.result, Opcode.reference, Opcode.dividesByZero]

end ArithmeticOp

/-! ## Operands -/

namespace Operand

/-- The address a written memory operand stands for, in flat memory. -/
def addressIn (m : Memory) (base : Option Nat) (address : Word) (indirect : Bool) : Word :=
  let direct := address + base.elim 0 fun index => m.get (flatRegisterBase + UInt32.ofNat index)
  if indirect then m.get direct else direct

/-- The cell a written operand stands for, in flat memory. -/
def cell? (m : Memory) : Operand → Option Word
  | .register index => some (flatRegisterBase + UInt32.ofNat index)
  | .memory _ base address indirect => some (addressIn m base address indirect)
  | .immediate _ | .control _ => none

/-- The value of a written operand, in flat memory. -/
def valueIn (m : Memory) : Operand → Word
  | .immediate value => value
  | o => (o.cell? m).elim 0 m.get

/-- The place for a result that a written operand stands for. -/
def target? (m : Memory) : Operand → Option WriteTarget
  | .immediate _ => none
  | .register index => some (.register index)
  | .memory _ base address indirect => some (.cell (addressIn m base address indirect))
  | .control r => some (.control r)

end Operand

namespace Machine

variable {m m' : Machine} {o : Operand} {d : OperandDescriptor}

theorem FullRange.fetch (full : m.FullRange) (offset : Word) :
    Machine.fetch offset m = .ok (m.memory.get offset) m :=
  Action.bind_of_ok (full.translate (by decide) offset) _

theorem FullRange.fetchExtra (full : m.FullRange) (cursor : Word) :
    Machine.fetchExtra cursor m = .ok (m.memory.get cursor, cursor + 1) m :=
  Action.bind_of_ok (full.fetch cursor) _

theorem FullRange.readRegister (full : m.FullRange) {index : Nat} (small : index < registerCount) :
    Machine.readRegister index m =
      .ok (m.memory.get (flatRegisterBase + UInt32.ofNat index)) m :=
  Action.bind_of_ok (full.registerAddress small) _

theorem operandAddress_of_describes (full : m.FullRange) {segment : DataSegment}
    {base : Option Nat} {address : Word} {indirect : Bool}
    (describes : (Operand.memory segment base address indirect).Describes d) :
    operandAddress d address m = .ok (Operand.addressIn m.memory base address indirect) m := by
  have memory : d.kind.space ≠ .register := by cases d.kind <;> decide
  have double : d.kind.isDouble = indirect := by
    rw [describes.kind]
    cases segment <;> cases indirect <;> rfl
  have based : baseValue d m = .ok (base.elim 0 fun index =>
      m.memory.get (flatRegisterBase + UInt32.ofNat index)) m := by
    unfold baseValue
    have known := describes.base?_eq
    cases base with
    | none =>
      rw [known]
      rfl
    | some index =>
      simp only [known]
      exact full.readRegister (d.lt_of_base? known)
  refine (Action.bind_of_ok based _).trans ?_
  refine (Action.bind_of_ok (full.translate memory _) _).trans ?_
  rw [double]
  unfold Operand.addressIn
  cases indirect with
  | false => rfl
  | true => exact full.translate memory _

/-- A written operand is resolved to its value and its place, and the cursor moves past its extra
word, if it has one. -/
theorem resolve_of_describes (full : m.FullRange) (describes : o.Describes d)
    (noControl : ∀ r, o ≠ .control r) {cursor : Word}
    (stored : ∀ w, o.extraWord? = some w → m.memory.get cursor = w) (ip : Word) (position : Nat) :
    resolve ip position cursor d m =
      .ok (⟨o.valueIn m.memory, o.target? m.memory⟩,
        if o.extraWord?.isSome then cursor + 1 else cursor) m := by
  have kind := describes.kind
  cases o with
  | immediate value =>
    unfold resolve
    rw [kind]
    refine (Action.bind_of_ok (full.fetchExtra cursor) _).trans ?_
    rw [stored value rfl]
    rfl
  | register index =>
    obtain ⟨small, same⟩ := Operand.generalRegister_eq_ok describes.register
    unfold resolve
    rw [kind]
    rw [← same] at small ⊢
    exact Action.bind_of_ok (full.readRegister small) _
  | memory segment base address indirect =>
    have fetched := full.fetchExtra cursor
    have found := operandAddress_of_describes full describes
    rw [stored address rfl] at fetched
    unfold resolve
    rw [kind]
    cases segment <;> cases indirect <;>
      exact (Action.bind_of_ok fetched _).trans (Action.bind_of_ok found _)
  | control r => exact absurd rfl (noControl r)

/-- The written operands of an instruction whose extra words lie from `cursor` on. -/
theorem resolveAll_of_describes (full : m.FullRange) {os : List Operand}
    {ds : List OperandDescriptor} (describe : List.Forall₂ Operand.Describes os ds)
    (noControl : ∀ o ∈ os, ∀ r, o ≠ .control r) {cursor : Word}
    (stored : ∀ (k : Nat) w, (os.filterMap Operand.extraWord?)[k]? = some w →
      m.memory.get (cursor + UInt32.ofNat k) = w) (ip : Word) (position : Nat) :
    resolveAll ip position cursor ds m =
      .ok (os.map fun o => ⟨o.valueIn m.memory, o.target? m.memory⟩,
        cursor + UInt32.ofNat (ds.countP (·.kind.hasExtraWord))) m := by
  induction describe generalizing cursor position with
  | nil => simp [resolveAll, pure, EStateM.pure]
  | @cons o d os ds first rest ih =>
    obtain ⟨plain, others⟩ := List.forall_mem_cons.mp noControl
    have takes : o.extraWord?.isSome = d.kind.hasExtraWord := by
      rw [Operand.isSome_extraWord?, first.kind]
    -- The next operand's extra word comes after that of this one, if this one has one.
    have here : ∀ w, o.extraWord? = some w → m.memory.get cursor = w := by
      intro w extra
      simpa using stored 0 w (by simp [extra])
    have after : ∀ (k : Nat) w, (os.filterMap Operand.extraWord?)[k]? = some w →
        m.memory.get ((if d.kind.hasExtraWord then cursor + 1 else cursor) + UInt32.ofNat k) = w := by
      intro k w found
      rw [← takes]
      cases extra : o.extraWord? with
      | none => exact stored k w (by simpa [extra] using found)
      | some v =>
        have next := stored (k + 1) w (by simpa [extra] using found)
        rwa [UInt32.ofNat_add, UInt32.add_comm (UInt32.ofNat k), ← UInt32.add_assoc] at next
    have resolved := resolve_of_describes full first plain here ip position
    rw [takes] at resolved
    rw [resolveAll, ← cursor_add_countP]
    exact (Action.bind_of_ok resolved _).trans (Action.bind_of_ok (ih others after (position + 1)) _)

/-! ## Performing -/

/-- Performing a data instruction. -/
theorem perform_of_data {i : ResolvedInstruction} (data : i.opcode.isData = true) (m : Machine) :
    perform i m =
      if i.opcode.dividesByZero i.second then .error (.fault .divideByZero) m
      else .ok (.value (i.opcode.result i.first i.second)) m := by
  by_cases moves : i.opcode = .mov
  · have value : i.opcode.result i.first i.second = i.second := by
      simp [moves, Opcode.result, Opcode.reference]
    rw [value]
    simp only [perform, moves]
    rfl
  · obtain ⟨op, known⟩ : ∃ op, ArithmeticOp.ofOpcode? i.opcode = some op := by
      revert data moves
      cases i.opcode <;> simp [Opcode.isData, ArithmeticOp.ofOpcode?]
    have performs : perform i = performArithmetic i := by
      revert data moves
      unfold perform
      cases i.opcode <;> simp [Opcode.isData]
    rw [performs, performArithmetic]
    simp only [known, ArithmeticOp.evaluate?_eq _ _ known]
    split <;> simp_all <;> rfl

/-- A result is written to the cell that the first operand stands for. -/
theorem writeBack_of_describes (full : m.FullRange) (describes : o.Describes d) {memory : Memory}
    {cell : Word} (place : o.cell? memory = some cell) (v : Word) :
    ∃ t, o.target? memory = some t ∧ writeBack v t m = .ok () (m.setCell cell v) := by
  cases o with
  | immediate value => cases place
  | register index =>
    obtain ⟨small, -⟩ := Operand.generalRegister_eq_ok describes.register
    cases place
    exact ⟨_, rfl, Action.bind_of_ok (full.registerAddress small) _⟩
  | memory segment base address indirect =>
    cases place
    exact ⟨_, rfl, rfl⟩
  | control r => cases place

/-- The first operand of a data instruction stands for a cell. -/
theorem exists_cell {i : Instruction} (data : i.opcode.isData = true) (obeys : i.Obeys)
    (first : i.operands[0]? = some d) (describes : o.Describes d)
    (noControl : ∀ r, o ≠ .control r) (memory : Memory) : ∃ cell, o.cell? memory = some cell := by
  have hasResult : i.opcode.hasResult = true := by
    revert data
    cases i.opcode <;> decide
  obtain ⟨accepted, -⟩ := Instruction.accepts_of_obeys obeys first
  rw [describes.kind] at accepted
  cases o with
  | immediate value =>
    rw [Operand.kind, Opcode.not_accepts_immediate_of_hasResult hasResult] at accepted
    cases accepted
  | register index => exact ⟨_, rfl⟩
  | memory segment base address indirect => exact ⟨_, rfl⟩
  | control r => exact absurd rfl (noControl r)

/-! ## Executing -/

/-- An instruction whose words lie where it is fetched is prepared with what its operands mean. -/
theorem prepare_of_assembled (full : m.FullRange) {i : Instruction} {os : List Operand} {ip : Word}
    (allowed : i.privilege.toUInt32 ≤ m.processor.privilege) (obeys : i.Obeys)
    (describe : List.Forall₂ Operand.Describes os i.operands)
    (noControl : ∀ o ∈ os, ∀ r, o ≠ .control r)
    (stored : ∀ (k : Nat) w, (i.encode :: os.filterMap Operand.extraWord?)[k]? = some w →
      m.memory.get (ip + UInt32.ofNat k) = w) :
    prepare ip m = .ok ⟨i.opcode, ip, ip + UInt32.ofNat i.length,
      os.map fun o => ⟨o.valueIn m.memory, o.target? m.memory⟩⟩ (m.remember i) := by
  have word : m.memory.get ip = i.encode := by simpa using stored 0 _ rfl
  have extras : ∀ (k : Nat) w, (os.filterMap Operand.extraWord?)[k]? = some w →
      (m.remember i).memory.get (ip + 1 + UInt32.ofNat k) = w := by
    intro k w found
    have next := stored (k + 1) w (by simpa using found)
    rwa [UInt32.ofNat_add, UInt32.add_comm (UInt32.ofNat k), ← UInt32.add_assoc] at next
  have full' : (m.remember i).FullRange := full.congr rfl
  have fetched : fetchInstruction ip m = .ok i (m.remember i) := by
    refine (Action.bind_of_ok (full.fetch ip) _).trans ?_
    rw [word, Instruction.decode_encode obeys]
    rfl
  have checked : checkPrivilege i (m.remember i) = .ok () (m.remember i) :=
    checkPrivilege_of_le allowed
  refine (Action.bind_of_ok fetched _).trans ((Action.bind_of_ok checked _).trans ?_)
  rw [← cursor_eq_add_length]
  exact Action.bind_of_ok (resolveAll_of_describes full' describe noControl extras ip 0) _

/-- A data instruction that was prepared writes its result, or divides by zero. -/
theorem executeAt_of_prepared {ip cell : Word} {r : ResolvedInstruction} {t : WriteTarget}
    (prepared : prepare ip m = .ok r m') (data : r.opcode.isData = true)
    (target : r.target? = some t) (written : ∀ v, writeBack v t m' = .ok () (m'.setCell cell v)) :
    executeAt ip m =
      if r.opcode.dividesByZero r.second then .error (.fault .divideByZero) m'
      else .ok () ((m'.setCell cell (r.opcode.result r.first r.second)).goto r.nextIp) := by
  refine (Action.bind_of_ok prepared _).trans ?_
  have performed := perform_of_data data m'
  split at performed
  next zero =>
    rw [if_pos zero]
    exact Action.bind_of_error performed _
  next nonzero =>
    rw [if_neg nonzero]
    refine (Action.bind_of_ok performed _).trans ?_
    have result : writeResult r (.value (r.opcode.result r.first r.second)) m' =
        .ok () (m'.setCell cell (r.opcode.result r.first r.second)) := by
      simp only [writeResult, Outcome.value, target]
      exact written _
    exact Action.bind_of_ok result _

/-- What executing the words of a data instruction comes to. -/
theorem executeAt_of_data (full : m.FullRange) {opcode : Opcode} {privilege : UInt8} {x y : Operand}
    {words : List Word} {ip : Word} (data : opcode.isData = true)
    (allowed : privilege.toUInt32 ≤ m.processor.privilege)
    (noControl : ∀ r, x ≠ .control r ∧ y ≠ .control r)
    (assembled : assemble opcode privilege [x, y] = .ok words)
    (stored : ∀ (k : Nat) w, words[k]? = some w → m.memory.get (ip + UInt32.ofNat k) = w) :
    ∃ i cell, x.cell? m.memory = some cell ∧ executeAt ip m =
      if opcode.dividesByZero (y.valueIn m.memory) then
        .error (.fault .divideByZero) (m.remember i)
      else .ok () (((m.remember i).setCell cell
        (opcode.result (x.valueIn m.memory) (y.valueIn m.memory))).goto
          (ip + UInt32.ofNat words.length)) := by
  obtain ⟨i, rfl, rfl, obeys, describe, length, rfl⟩ := assemble_eq_ok assembled
  have plain : ∀ o ∈ [x, y], ∀ r, o ≠ .control r := by
    intro o member r
    simp only [List.mem_cons, List.not_mem_nil, or_false] at member
    rcases member with rfl | rfl
    · exact (noControl r).1
    · exact (noControl r).2
  have prepared := prepare_of_assembled full allowed obeys describe plain stored
  rw [← length] at prepared
  obtain ⟨d, ds, first, -, operands⟩ := List.forall₂_cons_left_iff.mp describe
  obtain ⟨cell, place⟩ :=
    exists_cell data obeys (d := d) (by rw [operands]; rfl) first (fun r => (noControl r).1) m.memory
  have full' : (m.remember i).FullRange := full.congr rfl
  obtain ⟨t, target, -⟩ := writeBack_of_describes full' first place 0
  have written (v : Word) : writeBack v t (m.remember i) = .ok () ((m.remember i).setCell cell v) := by
    obtain ⟨t', target', written⟩ := writeBack_of_describes full' first place v
    obtain rfl : t = t' := Option.some.inj (target.symm.trans target')
    exact written
  exact ⟨i, cell, place, executeAt_of_prepared prepared data target written⟩

/-! ## Steps -/

/-- Data instructions execute to their meaning.  If the words of one lie where the next step fetches
them, the step writes the result to the cell of the first operand and goes on behind the words, and
neither the rest of the memory nor the rest of the context changes.  An instruction that divides by
zero writes nothing at all, and the step delivers that fault. -/
theorem step_of_data {opcode : Opcode} {privilege : UInt8} {x y : Operand} {words : List Word}
    (running : m.isRunning = true) (flat : m.processor.isSegmented = false)
    (quiet : m.timerFires = false) (data : opcode.isData = true)
    (allowed : privilege.toUInt32 ≤ m.processor.privilege)
    (noControl : ∀ r, x ≠ .control r ∧ y ≠ .control r)
    (assembled : assemble opcode privilege [x, y] = .ok words)
    (stored : ∀ (k : Nat) w, words[k]? = some w →
      m.memory.get (m.processor.ip + UInt32.ofNat k) = w) :
    (opcode.dividesByZero (y.valueIn m.memory) = false →
      ∃ cell m', x.cell? m.memory = some cell ∧ step m = .ok true m' ∧
        m'.memory = m.memory.set cell
          (opcode.result (x.valueIn m.memory) (y.valueIn m.memory)) ∧
        m'.processor.toContext =
          { m.processor.toContext with ip := m.processor.ip + UInt32.ofNat words.length } ∧
        m'.processor.inGuest = m.processor.inGuest ∧ m'.processor.slot = m.processor.slot) ∧
    (opcode.dividesByZero (y.valueIn m.memory) = true →
      ∃ m', executeAt m.processor.ip m.begun = .error (.fault .divideByZero) m' ∧
        Untouched m.begun m' ∧
        step m = conclude (raiseInterrupt Interrupt.divideByZero m.processor.ip []) m') := by
  have full : m.begun.FullRange := (fullRange_of_flat flat).congr (hidden_begun m)
  have processor := processor_begun m
  have allowed' : privilege.toUInt32 ≤ m.begun.processor.privilege := by
    rw [processor]
    exact allowed
  obtain ⟨i, cell, place, executed⟩ :=
    executeAt_of_data full data allowed' noControl assembled stored
  have same : m.begun.memory = m.memory := rfl
  rw [same] at place executed
  constructor
  · intro nonzero
    rw [if_neg (by simp [nonzero])] at executed
    have stepped := step_of_ok running quiet executed
    let next := m.processor.ip + UInt32.ofNat words.length
    have mode := m.sameMode_begun
    refine ⟨cell, ((m.begun.remember i).setCell cell _).goto next, place, ?_, rfl, ?_, mode.inGuest,
      mode.slot⟩
    · exact stepped.trans (congrArg (EStateM.Result.ok · _) running)
    · show ({ m.begun.processor with ip := _ } : Processor).toContext = _
      rw [processor]
  · intro zero
    rw [if_pos zero] at executed
    exact ⟨_, executed, .remember _ i, step_of_fault running quiet executed⟩

/-- A host that is about to divide the cell that register three points to by a register. -/
def dividingHost : Machine where
  memory :=
    (((Memory.empty.place 0x10
      [Instruction.encode ⟨.div, 0, [⟨.doubleDs, ⟨3, by decide⟩⟩, ⟨.register, ⟨4, by decide⟩⟩]⟩,
        0xFFFFFFFF]).place 0x2003 [0x101, 5]).place 0x100 [0x200]).place 0x200 [17]
  processor := { sp := 0x2000, ip := 0x10 }

theorem step_of_data_dividingHost :
    assemble .div 0 [.memory .ds (some 3) 0xFFFFFFFF true, .register 4] =
        .ok [Instruction.encode
          ⟨.div, 0, [⟨.doubleDs, ⟨3, by decide⟩⟩, ⟨.register, ⟨4, by decide⟩⟩]⟩, 0xFFFFFFFF] ∧
      ∃ m', step dividingHost = .ok true m' ∧
        m'.memory = dividingHost.memory.set 0x200 3 ∧ m'.processor.ip = 0x12 := by
  have assembled : assemble .div 0 [.memory .ds (some 3) 0xFFFFFFFF true, .register 4] =
      .ok [Instruction.encode
        ⟨.div, 0, [⟨.doubleDs, ⟨3, by decide⟩⟩, ⟨.register, ⟨4, by decide⟩⟩]⟩, 0xFFFFFFFF] := rfl
  have stored : ∀ (k : Nat) w, [Instruction.encode
      ⟨.div, 0, [⟨.doubleDs, ⟨3, by decide⟩⟩, ⟨.register, ⟨4, by decide⟩⟩]⟩, 0xFFFFFFFF][k]? = some w →
      dividingHost.memory.get (dividingHost.processor.ip + UInt32.ofNat k) = w := by
    intro k w found
    match k with
    | 0 =>
      cases found
      decide +kernel
    | 1 =>
      cases found
      decide +kernel
    | k + 2 => cases found
  have noControl : ∀ r, (Operand.memory .ds (some 3) 0xFFFFFFFF true) ≠ .control r ∧
      Operand.register 4 ≠ .control r := fun r => ⟨by simp, by simp⟩
  obtain ⟨cell, m', place, stepped, memory, context, -⟩ :=
    (step_of_data (m := dividingHost) (by decide) (by decide) (by decide) (by decide) (by decide)
      noControl assembled stored).1 (by decide +kernel)
  have there : Operand.cell? dividingHost.memory (.memory .ds (some 3) 0xFFFFFFFF true) =
      some 0x200 := by decide +kernel
  obtain rfl : cell = 0x200 := Option.some.inj (place.symm.trans there)
  have quotient : Opcode.result .div
      (Operand.valueIn dividingHost.memory (.memory .ds (some 3) 0xFFFFFFFF true))
      (Operand.valueIn dividingHost.memory (.register 4)) = 3 := by decide +kernel
  rw [quotient] at memory
  exact ⟨assembled, m', stepped, memory, congrArg Context.ip context⟩

end Machine

end WordMachine
