import WordMachine.Word
import WordMachine.Isa.Opcode
import WordMachine.Isa.Register
import WordMachine.Text.Numeral

/-!
# Instruction words

An instruction word has four bytes, the lowest first: the opcode, the
privilege level the instruction requires, and one byte for each of at most two
operands.  An operand byte holds the addressing mode in its upper three bits
and a register number in its lower five.

`Instruction.decode` reads a word and checks it against the instruction table.
Bytes beyond the arity are ignored.  `Instruction.encode` writes them as zero,
so a word and its re-encoding can differ there and nowhere else.

Every operand byte has one reading (`OperandDescriptor.ofByte?_toByte`), and
`Instruction.decode_encode` says an instruction that obeys the table is what
its word decodes to.
-/

namespace WordMachine

/-! ## Operand bytes -/

/-- One operand byte of an instruction word. -/
structure OperandDescriptor where
  /-- The addressing mode. -/
  kind : OperandKind
  /-- The register number. -/
  register : Fin 32
deriving DecidableEq, Repr

namespace OperandDescriptor

/-- The operand that a byte describes, unless its mode tag is unassigned. -/
def ofByte? (byte : UInt8) : Option OperandDescriptor := do
  let kind ← OperandKind.ofTag? (byte >>> 5)
  return ⟨kind, Fin.ofNat 32 byte.toNat⟩

/-- The byte that describes an operand. -/
def toByte (d : OperandDescriptor) : UInt8 := d.kind.tag <<< 5 ||| UInt8.ofNat d.register

/-- The register added to the address of a memory operand, if there is one. -/
def base? (d : OperandDescriptor) : Option Nat :=
  if d.register = noRegister then none else some d.register

/-- Whether the register number means something in this mode. -/
def isNamed (d : OperandDescriptor) : Bool :=
  match d.kind with
  | .register => d.register ≠ noRegister
  | .control => (ControlRegister.ofIndex? d.register).isSome
  | _ => true

theorem ofByte?_toByte (d : OperandDescriptor) : ofByte? d.toByte = some d := by
  obtain ⟨k, r⟩ := d
  cases k <;> revert r <;> decide

end OperandDescriptor

/-! ## Errors -/

/-- Why a word is not an instruction.  Operand positions count from one. -/
inductive DecodeError where
  /-- No opcode has this byte. -/
  | invalidOpcode (code : UInt8)
  /-- No addressing mode has this tag. -/
  | invalidOperandType (position : Nat) (tag : UInt8)
  /-- The opcode does not take this mode in this position. -/
  | illegalOperand (position : Nat) (opcode : Opcode) (kind : OperandKind)
  /-- A register operand with the number that means "no register". -/
  | reservedRegister (position : Nat)
  /-- No control register has this number. -/
  | unknownControlRegister (index : Nat)
deriving DecidableEq, Repr

/-- The error as text. -/
def DecodeError.message : DecodeError → String
  | invalidOpcode code => s!"invalid opcode: {Text.prefixedHex2 code.toNat}"
  | invalidOperandType position tag => s!"operand {position}: unassigned type tag {tag.toNat}"
  | illegalOperand position opcode kind =>
    s!"operand {position}: {kind.name} is not allowed for {opcode.mnemonic}"
  | reservedRegister position => s!"operand {position}: register 31 is reserved"
  | unknownControlRegister index => s!"unknown special register {index}"

/-! ## Instructions -/

/-- A decoded instruction. -/
structure Instruction where
  /-- The operation. -/
  opcode : Opcode
  /-- The least privilege level that may execute it. -/
  privilege : UInt8
  /-- The operands, one for each position the opcode has. -/
  operands : List OperandDescriptor
deriving DecidableEq, Repr

namespace Instruction

/-- The number of extra words after the instruction word. -/
def extraWords (i : Instruction) : Nat := i.operands.countP (·.kind.hasExtraWord)

/-- The number of words of an instruction. -/
def length (i : Instruction) : Nat := 1 + i.extraWords

/-- Reads one operand byte for a position of an opcode. -/
def decodeOperand (opcode : Opcode) (position : Nat) (legal : OperandClass) (byte : UInt8) :
    Except DecodeError OperandDescriptor :=
  match OperandDescriptor.ofByte? byte with
  | none => .error (.invalidOperandType position (byte >>> 5))
  | some d =>
    if !legal.accepts d.kind then .error (.illegalOperand position opcode d.kind)
    else if d.isNamed then .ok d
    else if d.kind = .register then .error (.reservedRegister position)
    else .error (.unknownControlRegister d.register)

/-- Reads operand bytes for the positions from `position` on, as many as the opcode has. -/
def decodeOperands (opcode : Opcode) :
    Nat → List OperandClass → List UInt8 → Except DecodeError (List OperandDescriptor)
  | position, legal :: classes, byte :: bytes => do
      let d ← decodeOperand opcode position legal byte
      let rest ← decodeOperands opcode (position + 1) classes bytes
      return d :: rest
  | _, _, _ => .ok []

/-- Reads an instruction word. -/
def decode (word : Word) : Except DecodeError Instruction :=
  match Opcode.ofCode? word.byte0 with
  | none => .error (.invalidOpcode word.byte0)
  | some opcode => do
      let operands ← decodeOperands opcode 1 opcode.form.operands [word.byte2, word.byte3]
      return ⟨opcode, word.byte1, operands⟩

/-- The operand byte for a position, zero where there is no operand. -/
def operandByte (i : Instruction) (position : Nat) : UInt8 :=
  i.operands[position]?.elim 0 OperandDescriptor.toByte

/-- Writes an instruction word. -/
def encode (i : Instruction) : Word :=
  Word.ofBytes i.opcode.code i.privilege (i.operandByte 0) (i.operandByte 1)

/-- The instruction that does nothing. -/
def nop : Instruction := ⟨.nop, 0, []⟩

/-! ## Obeying the table -/

/-- Whether operands are legal for a list of classes, one operand for each class. -/
def operandsObey : List OperandClass → List OperandDescriptor → Bool
  | [], [] => true
  | legal :: classes, d :: ds => legal.accepts d.kind && d.isNamed && operandsObey classes ds
  | _, _ => false

/-- Whether an instruction has the operands its opcode takes. -/
def Obeys (i : Instruction) : Prop := operandsObey i.opcode.form.operands i.operands

instance (i : Instruction) : Decidable i.Obeys := inferInstanceAs (Decidable (_ = true))

theorem decodeOperand_toByte {legal : OperandClass} {d : OperandDescriptor}
    (h : legal.accepts d.kind && d.isNamed) (opcode : Opcode) (position : Nat) :
    decodeOperand opcode position legal d.toByte = .ok d := by
  simp_all [decodeOperand, OperandDescriptor.ofByte?_toByte]

theorem decodeOperands_map_toByte (opcode : Opcode) {classes : List OperandClass}
    {ds : List OperandDescriptor} (h : operandsObey classes ds) (position : Nat)
    (padding : List UInt8) :
    decodeOperands opcode position classes (ds.map (·.toByte) ++ padding) = .ok ds := by
  induction classes generalizing ds position with
  | nil => cases ds <;> simp_all [operandsObey, decodeOperands]
  | cons legal classes ih =>
    cases ds with
    | nil => simp [operandsObey] at h
    | cons d ds =>
      simp only [operandsObey, Bool.and_eq_true] at h
      have first : decodeOperand opcode position legal d.toByte = .ok d :=
        decodeOperand_toByte (by simp [h.1]) opcode position
      simp [decodeOperands, first, ih h.2, bind, Except.bind, pure, Except.pure]

theorem length_of_operandsObey {classes : List OperandClass} {ds : List OperandDescriptor}
    (h : operandsObey classes ds) : ds.length = classes.length := by
  induction classes generalizing ds with
  | nil => cases ds <;> simp_all [operandsObey]
  | cons _ _ ih => cases ds <;> simp_all [operandsObey]

/-- The operands after the first one obey the classes after the first one. -/
theorem operandsObey_of_cons {classes : List OperandClass} {d : OperandDescriptor}
    {ds : List OperandDescriptor} (h : operandsObey classes (d :: ds) = true) :
    d.isNamed = true ∧ ∃ rest, operandsObey rest ds = true := by
  cases classes with
  | nil => simp [operandsObey] at h
  | cons legal rest =>
    simp only [operandsObey, Bool.and_eq_true] at h
    obtain ⟨⟨-, named⟩, obey⟩ := h
    exact ⟨named, rest, obey⟩

theorem decode_encode {i : Instruction} (h : i.Obeys) : decode i.encode = .ok i := by
  obtain ⟨opcode, privilege, ds⟩ := i
  have hlen : ds.length ≤ 2 := by
    rw [length_of_operandsObey h]
    exact Opcode.arity_le opcode
  have bytes : ∃ padding, [ds[0]?.elim 0 OperandDescriptor.toByte,
      ds[1]?.elim 0 OperandDescriptor.toByte] = ds.map (·.toByte) ++ padding := by
    match ds, hlen with
    | [], _ => exact ⟨[0, 0], rfl⟩
    | [d], _ => exact ⟨[0], rfl⟩
    | [d, e], _ => exact ⟨[], rfl⟩
  obtain ⟨padding, bytes⟩ := bytes
  simp [decode, encode, operandByte, Opcode.ofCode?_code, bytes,
    decodeOperands_map_toByte opcode h, bind, Except.bind, pure, Except.pure]

theorem accepts_of_operandsObey {classes : List OperandClass} {ds : List OperandDescriptor}
    (h : operandsObey classes ds = true) {k : Nat} {d : OperandDescriptor} (at_k : ds[k]? = some d) :
    classes[k]?.any (·.accepts d.kind) = true ∧ d.isNamed = true := by
  induction classes generalizing ds k with
  | nil => cases ds <;> simp_all [operandsObey]
  | cons legal classes ih =>
    cases ds with
    | nil => simp at at_k
    | cons d' ds =>
      simp only [operandsObey, Bool.and_eq_true] at h
      cases k with
      | zero =>
        simp only [List.getElem?_cons_zero, Option.some.injEq] at at_k
        subst at_k
        simpa using h.1
      | succ k => simpa using ih h.2 (by simpa using at_k)

/-- An operand of an instruction that obeys the table is legal in its position. -/
theorem accepts_of_obeys {i : Instruction} (h : i.Obeys) {k : Nat} {d : OperandDescriptor}
    (at_k : i.operands[k]? = some d) : i.opcode.accepts k d.kind = true ∧ d.isNamed = true :=
  accepts_of_operandsObey h at_k

theorem operandObeys_of_decodeOperand {opcode : Opcode} {position : Nat} {legal : OperandClass}
    {byte : UInt8} {d : OperandDescriptor}
    (h : decodeOperand opcode position legal byte = .ok d) :
    legal.accepts d.kind = true ∧ d.isNamed = true := by
  unfold decodeOperand at h
  split at h
  · cases h
  · split at h
    · cases h
    · split at h
      · cases h
        simp_all
      · split at h <;> cases h

theorem operandsObey_of_decodeOperands {opcode : Opcode} {classes : List OperandClass}
    {bytes : List UInt8} {ds : List OperandDescriptor} {position : Nat}
    (enough : classes.length ≤ bytes.length)
    (h : decodeOperands opcode position classes bytes = .ok ds) :
    operandsObey classes ds = true := by
  induction classes generalizing bytes ds position with
  | nil =>
    cases h
    rfl
  | cons legal classes ih =>
    cases bytes with
    | nil => simp at enough
    | cons byte bytes =>
      simp only [decodeOperands, bind, Except.bind] at h
      split at h
      · cases h
      next d first =>
        split at h
        · cases h
        next rest others =>
          cases h
          obtain ⟨accepted, named⟩ := operandObeys_of_decodeOperand first
          have obey := ih (by simpa using enough) others
          simp [operandsObey, accepted, named, obey]

/-- What decodes obeys the table. -/
theorem obeys_of_decode {word : Word} {i : Instruction} (h : decode word = .ok i) : i.Obeys := by
  unfold decode at h
  split at h
  · cases h
  next opcode _ =>
    simp only [bind, Except.bind] at h
    split at h
    · cases h
    next operands decoded =>
      cases h
      have enough : opcode.form.operands.length ≤ [word.byte2, word.byte3].length :=
        Opcode.arity_le opcode
      exact operandsObey_of_decodeOperands enough decoded

end Instruction

end WordMachine
