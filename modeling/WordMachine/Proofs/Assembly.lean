import Mathlib.Data.List.Forall2
import WordMachine.Assembly.Operand

/-!
# What assembling gives

The words that assembling gives are the word of an instruction that obeys the
table, and the extra words of its operands (`assemble_eq_ok`).  So decoding gives
the instruction back.  Its operand bytes `Describe` the written operands: they
keep the mode and the register number, and the rest is in the extra word.
-/

namespace WordMachine

namespace Operand

variable {o : Operand} {d : OperandDescriptor}

/-- What an operand byte keeps of a written operand. -/
structure Describes (o : Operand) (d : OperandDescriptor) : Prop where
  kind : d.kind = o.kind
  register : o.registerField = .ok d.register

/-- A general register that has a number below that of "no register". -/
theorem generalRegister_eq_ok {index : Nat} {field : Fin 32}
    (h : generalRegister index = .ok field) : index < registerCount ∧ field.val = index := by
  unfold generalRegister at h
  split at h
  next small =>
    cases h
    exact ⟨small, rfl⟩
  next => cases h

theorem Describes.isNamed (h : o.Describes d) : d.isNamed = true := by
  obtain ⟨kind, register⟩ := h
  unfold OperandDescriptor.isNamed
  rw [kind]
  cases o with
  | immediate value => rfl
  | register index =>
    obtain ⟨small, same⟩ := generalRegister_eq_ok register
    simp only [Operand.kind, same, decide_eq_true_eq, noRegister, registerCount] at *
    omega
  | memory segment base address indirect => cases segment <;> cases indirect <;> rfl
  | control r =>
    have same : _ = d.register := Except.ok.inj register
    simp [Operand.kind, ← same, ControlRegister.ofIndex?_index]

/-- The register field of a memory operand is its base register. -/
theorem Describes.base?_eq {segment : DataSegment} {base : Option Nat} {address : Word}
    {indirect : Bool} (h : (memory segment base address indirect).Describes d) :
    d.base? = base := by
  have register := h.register
  unfold OperandDescriptor.base?
  cases base with
  | none =>
    have same : _ = d.register := Except.ok.inj register
    rw [← same]
    rfl
  | some index =>
    obtain ⟨small, same⟩ := generalRegister_eq_ok register
    simp only [registerCount] at small
    rw [same, if_neg (by simp only [noRegister]; omega)]

theorem describes_of_descriptor {opcode : Opcode} {position : Nat} {legal : OperandClass}
    (h : o.descriptor opcode position legal = .ok d) :
    legal.accepts d.kind = true ∧ o.Describes d := by
  unfold descriptor at h
  split at h
  next accepted =>
    cases field : o.registerField with
    | error e => simp [field, Except.map] at h
    | ok f =>
      simp only [field, Except.map, Except.ok.injEq] at h
      subst h
      exact ⟨accepted, rfl, field⟩
  next => cases h

theorem describes_of_descriptors {opcode : Opcode} {position : Nat} {classes : List OperandClass}
    {os : List Operand} {ds : List OperandDescriptor} (known : os.length = classes.length)
    (h : descriptors opcode position classes os = .ok ds) :
    Instruction.operandsObey classes ds = true ∧ List.Forall₂ Describes os ds := by
  induction classes generalizing position os ds with
  | nil =>
    obtain rfl := List.length_eq_zero_iff.mp known
    cases h
    exact ⟨rfl, .nil⟩
  | cons legal classes ih =>
    cases os with
    | nil => simp at known
    | cons o os =>
      rw [descriptors] at h
      cases first : o.descriptor opcode position legal with
      | error e => simp [first, bind, Except.bind] at h
      | ok d =>
        cases rest : descriptors opcode (position + 1) classes os with
        | error e => simp [first, rest, bind, Except.bind] at h
        | ok ds' =>
          simp only [first, rest, bind, Except.bind, pure, Except.pure, Except.ok.injEq] at h
          subst h
          obtain ⟨accepted, describes⟩ := describes_of_descriptor first
          obtain ⟨obey, others⟩ := ih (by simpa using known) rest
          refine ⟨?_, .cons describes others⟩
          simp [Instruction.operandsObey, accepted, describes.isNamed, obey]

/-- There is one extra word for each operand that takes one. -/
theorem length_extraWords {os : List Operand} {ds : List OperandDescriptor}
    (describe : List.Forall₂ Describes os ds) :
    (os.filterMap extraWord?).length = ds.countP (·.kind.hasExtraWord) := by
  induction describe with
  | nil => rfl
  | @cons o d os ds first rest ih =>
    have takes := isSome_extraWord? o
    rw [← first.kind] at takes
    cases extra : o.extraWord? with
    | none => simp [extra, ← takes, ih]
    | some w => simp [extra, ← takes, ih]

end Operand

/-- What holds of the words that assembling gives. -/
theorem assemble_eq_ok {opcode : Opcode} {privilege : UInt8} {os : List Operand} {words : List Word}
    (h : assemble opcode privilege os = .ok words) :
    ∃ i : Instruction, i.opcode = opcode ∧ i.privilege = privilege ∧ i.Obeys ∧
      List.Forall₂ Operand.Describes os i.operands ∧ words.length = i.length ∧
      words = i.encode :: os.filterMap Operand.extraWord? := by
  unfold assemble at h
  split at h
  next known =>
    cases described : Operand.descriptors opcode 1 opcode.form.operands os with
    | error e => simp [described, bind, Except.bind] at h
    | ok ds =>
      simp only [described, bind, Except.bind, pure, Except.pure, Except.ok.injEq] at h
      subst h
      obtain ⟨obey, describe⟩ := Operand.describes_of_descriptors known described
      refine ⟨⟨opcode, privilege, ds⟩, rfl, rfl, obey, describe, ?_, rfl⟩
      rw [List.length_cons, Operand.length_extraWords describe, Instruction.length,
        Instruction.extraWords, Nat.add_comm]
  next => cases h

end WordMachine
