import WordMachine.Proofs.Assembly

/-!
# Decoding and assembling are inverse

A word that decodes is, up to the operand bytes its opcode does not have, the
encoding of its instruction (`Instruction.encode_of_decode`).  The operand
bytes and the extra words together say what was written, and
`Operand.readBack` reads it: it takes one extra word for each mode that has one,
in the order of the operands.

Reading back is inverse to assembling.  What assembling writes is read back as
it was (`Operand.readBack_of_describes`), and what is read back from operands
that obey the table assembles to them again, except that the register number
of a literal, which means nothing, comes out as zero
(`Operand.descriptors_readBack`).  The two directions together are
`assemble_decode_inverse`: decoder and assembler accept the same instructions.
-/

namespace WordMachine

/-! ## A byte is written as it was read -/

theorem Opcode.code_of_ofCode? {code : UInt8} {opcode : Opcode}
    (h : Opcode.ofCode? code = some opcode) : opcode.code = code :=
  eq_of_beq (List.find?_some h :)

namespace OperandDescriptor

private theorem toByte_ofByte?_all :
    ∀ n : Fin 256, (ofByte? (UInt8.ofFin n)).all (fun d => d.toByte = UInt8.ofFin n) := by
  decide +kernel

theorem toByte_of_ofByte? {byte : UInt8} {d : OperandDescriptor} (h : ofByte? byte = some d) :
    d.toByte = byte := by
  have same := toByte_ofByte?_all byte.toFin
  rw [UInt8.ofFin_toFin, h] at same
  simpa using same

/-- What assembling makes of an operand: a literal has register number zero, so its byte is
zero. -/
def plain (d : OperandDescriptor) : OperandDescriptor :=
  if d.kind = .immediate then (ofByte? 0).getD d else d

theorem kind_plain (d : OperandDescriptor) : d.plain.kind = d.kind := by
  unfold plain
  split
  next literal =>
    rw [literal]
    rfl
  next => rfl

/-- The tag of a mode is the upper three bits of the operand byte. -/
theorem toByte_shiftRight (d : OperandDescriptor) : d.toByte >>> 5 = d.kind.tag := by
  obtain ⟨k, r⟩ := d
  cases k <;> revert r <;> decide

end OperandDescriptor

namespace Instruction

theorem toByte_of_decodeOperand {opcode : Opcode} {position : Nat} {legal : OperandClass}
    {byte : UInt8} {d : OperandDescriptor}
    (h : decodeOperand opcode position legal byte = .ok d) : d.toByte = byte := by
  unfold decodeOperand at h
  split at h
  · cases h
  next found read =>
    have same : found = d := by
      split at h
      · cases h
      · split at h
        · exact Except.ok.inj h
        · split at h <;> cases h
    rw [← same]
    exact OperandDescriptor.toByte_of_ofByte? read

theorem map_toByte_of_decodeOperands {opcode : Opcode} {classes : List OperandClass}
    {bytes : List UInt8} {ds : List OperandDescriptor} {position : Nat}
    (h : decodeOperands opcode position classes bytes = .ok ds) :
    ds.map (·.toByte) = bytes.take classes.length := by
  induction classes generalizing bytes ds position with
  | nil =>
    cases h
    rfl
  | cons legal classes ih =>
    cases bytes with
    | nil =>
      cases h
      rfl
    | cons byte bytes =>
      simp only [decodeOperands, bind, Except.bind] at h
      split at h
      · cases h
      next d first =>
        split at h
        · cases h
        next rest others =>
          cases h
          simp [toByte_of_decodeOperand first, ih others]

/-- What a word says about the instruction it decodes to. -/
theorem bytes_of_decode {w : Word} {i : Instruction} (h : decode w = .ok i) :
    i.opcode.code = w.byte0 ∧ i.privilege = w.byte1 ∧
      i.operands.map (·.toByte) = [w.byte2, w.byte3].take i.opcode.arity := by
  unfold decode at h
  split at h
  · cases h
  next opcode known =>
    simp only [bind, Except.bind] at h
    split at h
    · cases h
    next operands decoded =>
      cases h
      exact ⟨Opcode.code_of_ofCode? known, rfl, map_toByte_of_decodeOperands decoded⟩

theorem operandByte_eq (i : Instruction) (position : Nat) :
    i.operandByte position = (i.operands.map (·.toByte))[position]?.getD 0 := by
  unfold operandByte
  rw [List.getElem?_map]
  cases i.operands[position]? <;> rfl

/-- The operand bytes of a word that decodes, zero beyond the arity. -/
theorem operandByte_of_decode {w : Word} {i : Instruction} (h : decode w = .ok i) :
    i.operandByte 0 = (if 0 < i.opcode.arity then w.byte2 else 0) ∧
      i.operandByte 1 = (if 1 < i.opcode.arity then w.byte3 else 0) := by
  have few := Opcode.arity_le i.opcode
  rw [operandByte_eq, operandByte_eq, (bytes_of_decode h).2.2]
  generalize i.opcode.arity = n at few
  match n, few with
  | 0, _ | 1, _ | 2, _ => exact ⟨rfl, rfl⟩

/-- The encoding of a word that decodes is the word with the bytes beyond the arity cleared. -/
theorem encode_of_decode {w : Word} {i : Instruction} (h : decode w = .ok i) :
    i.encode = Word.ofBytes w.byte0 w.byte1 (if 0 < i.opcode.arity then w.byte2 else 0)
      (if 1 < i.opcode.arity then w.byte3 else 0) := by
  obtain ⟨code, privilege, _⟩ := bytes_of_decode h
  obtain ⟨first, second⟩ := operandByte_of_decode h
  rw [encode, code, privilege, first, second]

end Instruction

/-! ## Reading written operands back -/

/-- The written operand that an operand byte stands for, with `extra` as its extra word if its
mode takes one. -/
def OperandDescriptor.written? (d : OperandDescriptor) (extra : Word) : Option Operand :=
  match d.kind with
  | .immediate => some (.immediate extra)
  | .register => some (.register d.register)
  | .singleDs => some (.memory .ds d.base? extra false)
  | .singleEs => some (.memory .es d.base? extra false)
  | .doubleDs => some (.memory .ds d.base? extra true)
  | .doubleEs => some (.memory .es d.base? extra true)
  | .control => (ControlRegister.ofIndex? d.register).map .control

namespace Operand

/-- Takes the extra word of a mode from the front of a list.  Where the mode takes none, zero
stands in for it. -/
def takeExtra? (k : OperandKind) (extras : List Word) : Option (Word × List Word) :=
  match k.hasExtraWord, extras with
  | false, extras => some (0, extras)
  | true, extra :: extras => some (extra, extras)
  | true, [] => none

/-- The written operands that operand bytes and extra words stand for, if there are as many
extra words as the modes take. -/
def readBack : List OperandDescriptor → List Word → Option (List Operand)
  | [], [] => some []
  | [], _ :: _ => none
  | d :: ds, extras => do
    let (extra, extras) ← takeExtra? d.kind extras
    return (← d.written? extra) :: (← readBack ds extras)

theorem exists_takeExtra? {k : OperandKind} {extras : List Word} {n : Nat}
    (enough : extras.length = (if k.hasExtraWord then 1 else 0) + n) :
    ∃ (extra : Word) (rest : List Word), takeExtra? k extras = some (extra, rest) ∧
      rest.length = n ∧ extras = (if k.hasExtraWord then [extra] else []) ++ rest := by
  unfold takeExtra?
  cases takes : k.hasExtraWord with
  | false => exact ⟨0, extras, rfl, by simpa [takes] using enough, rfl⟩
  | true =>
    cases extras with
    | nil =>
      simp only [takes, if_true, List.length_nil] at enough
      omega
    | cons extra extras =>
      simp only [takes, if_true, List.length_cons] at enough
      exact ⟨extra, extras, rfl, by omega, rfl⟩

variable {o : Operand} {d : OperandDescriptor}

theorem filterMap_extraWord?_cons (o : Operand) (os : List Operand) :
    (o :: os).filterMap extraWord? = o.extraWord?.toList ++ os.filterMap extraWord? := by
  cases extra : o.extraWord? <;> simp [extra]

/-- An operand that a byte describes is what the byte and the extra word stand for. -/
theorem Describes.written?_eq (h : o.Describes d) :
    d.written? (o.extraWord?.getD 0) = some o := by
  have kind := h.kind
  unfold OperandDescriptor.written?
  rw [kind]
  cases o with
  | immediate value => rfl
  | register index =>
    obtain ⟨_, same⟩ := generalRegister_eq_ok h.register
    simp [Operand.kind, same]
  | memory segment base address indirect =>
    cases segment <;> cases indirect <;> simp [Operand.kind, h.base?_eq, extraWord?]
  | control r =>
    have same : _ = d.register := Except.ok.inj h.register
    simp [Operand.kind, ← same, ControlRegister.ofIndex?_index]

theorem readBack_of_describes {os : List Operand} {ds : List OperandDescriptor}
    (describe : List.Forall₂ Describes os ds) :
    readBack ds (os.filterMap extraWord?) = some os := by
  induction describe with
  | nil => rfl
  | @cons o d os ds first rest ih =>
    have written := first.written?_eq
    have takes := isSome_extraWord? o
    rw [← first.kind] at takes
    have taken : takeExtra? d.kind ((o :: os).filterMap extraWord?) =
        some (o.extraWord?.getD 0, os.filterMap extraWord?) := by
      unfold takeExtra?
      cases extra : o.extraWord? <;> simp [extra, ← takes]
    simp [readBack, taken, written, ih]

/-- What a named operand byte stands for is described by it, up to the register number of a
literal. -/
theorem exists_written? (named : d.isNamed = true) (extra : Word) :
    ∃ o : Operand, d.written? extra = some o ∧ o.Describes d.plain ∧
      o.extraWord?.toList = if d.kind.hasExtraWord then [extra] else [] := by
  obtain ⟨kind, register⟩ := d
  have base : ∀ (segment : DataSegment) (indirect : Bool),
      (memory segment (OperandDescriptor.base? ⟨kind, register⟩) extra indirect).registerField =
        .ok register := by
    intro segment indirect
    simp only [OperandDescriptor.base?]
    split
    next none =>
      exact congrArg Except.ok (Fin.ext none.symm)
    next some =>
      have small : register.val < registerCount := by
        simp only [noRegister, registerCount] at *
        omega
      simp [registerField, generalRegister, small]
  cases kind with
  | immediate => exact ⟨_, rfl, ⟨rfl, rfl⟩, rfl⟩
  | register =>
    have small : register.val < registerCount := by
      have other : register.val ≠ noRegister := by simpa [OperandDescriptor.isNamed] using named
      simp only [noRegister, registerCount] at *
      omega
    exact ⟨_, rfl, ⟨rfl, by simp [registerField, generalRegister, small,
      OperandDescriptor.plain]⟩, rfl⟩
  | singleDs | singleEs | doubleDs | doubleEs =>
    exact ⟨_, rfl, ⟨rfl, base _ _⟩, rfl⟩
  | control =>
    simp only [OperandDescriptor.isNamed] at named
    obtain ⟨r, known⟩ := Option.isSome_iff_exists.mp named
    have index : r.index = register.val := ControlRegister.index_of_ofIndex? known
    refine ⟨.control r, by simp [OperandDescriptor.written?, known], ⟨rfl, ?_⟩, rfl⟩
    exact congrArg Except.ok (Fin.ext index)

theorem descriptor_of_describes (h : o.Describes d) {legal : OperandClass}
    (accepted : legal.accepts d.kind = true) (opcode : Opcode) (position : Nat) :
    o.descriptor opcode position legal = .ok d := by
  rw [h.kind] at accepted
  rw [descriptor, if_pos accepted, h.register, ← h.kind]
  rfl

/-- What is read back from operand bytes that obey the table assembles to them, with the
literals plain. -/
theorem descriptors_readBack {classes : List OperandClass} {ds : List OperandDescriptor}
    (obey : Instruction.operandsObey classes ds = true) {extras : List Word}
    (enough : extras.length = ds.countP (·.kind.hasExtraWord)) (opcode : Opcode)
    (position : Nat) :
    ∃ os : List Operand, readBack ds extras = some os ∧ os.length = classes.length ∧
      os.filterMap extraWord? = extras ∧
      descriptors opcode position classes os = .ok (ds.map (·.plain)) := by
  induction classes generalizing ds extras position with
  | nil =>
    obtain rfl : ds = [] := by cases ds <;> simp_all [Instruction.operandsObey]
    obtain rfl : extras = [] := by simpa using enough
    exact ⟨[], rfl, rfl, rfl, rfl⟩
  | cons legal classes ih =>
    cases ds with
    | nil => simp [Instruction.operandsObey] at obey
    | cons d ds =>
      simp only [Instruction.operandsObey, Bool.and_eq_true] at obey
      obtain ⟨⟨accepted, named⟩, obey⟩ := obey
      have plain_accepted : legal.accepts d.plain.kind = true := by
        rwa [OperandDescriptor.kind_plain]
      obtain ⟨extra, later, taken, length, rfl⟩ := exists_takeExtra?
        (enough.trans ((List.countP_cons ..).trans (Nat.add_comm ..)))
      obtain ⟨o, written, describes, word⟩ := exists_written? named extra
      obtain ⟨os, back, known, words, rest⟩ := ih obey length (position + 1)
      refine ⟨o :: os, ?_, ?_, ?_, ?_⟩
      · simp [readBack, taken, written, back]
      · simp [known]
      · rw [filterMap_extraWord?_cons, word, words]
      · simp [descriptors, descriptor_of_describes describes plain_accepted, rest, bind,
          Except.bind, pure, Except.pure]

end Operand

/-! ## The two directions together -/

/-- Two operand bytes that are equal, or both of a literal and differ in the register number. -/
def OperandDescriptor.SameByte (b b' : UInt8) : Prop :=
  b' = b ∨ b >>> 5 = OperandKind.immediate.tag ∧ b' >>> 5 = OperandKind.immediate.tag

theorem OperandDescriptor.sameByte_plain (d : OperandDescriptor) :
    SameByte d.toByte d.plain.toByte := by
  by_cases literal : d.kind = .immediate
  · right
    rw [toByte_shiftRight, toByte_shiftRight, kind_plain, literal]
    exact ⟨rfl, rfl⟩
  · left
    rw [plain, if_neg literal]

namespace Instruction

/-- The instruction that assembling gives for these operands: its literals have register number
zero. -/
def plain (i : Instruction) : Instruction :=
  { i with operands := i.operands.map (·.plain) }

theorem sameByte_plain (i : Instruction) (position : Nat) :
    OperandDescriptor.SameByte (i.operandByte position) (i.plain.operandByte position) := by
  unfold operandByte plain
  rw [List.getElem?_map]
  cases i.operands[position]? with
  | none => exact .inl rfl
  | some d => exact d.sameByte_plain

/-- An instruction that obeys the table is assembled, from what its operands and any extra words
are read back as. -/
theorem assemble_readBack {i : Instruction} (obey : i.Obeys) {extras : List Word}
    (enough : extras.length = i.extraWords) :
    ∃ os : List Operand, Operand.readBack i.operands extras = some os ∧
      assemble i.opcode i.privilege os = .ok (i.plain.encode :: extras) := by
  obtain ⟨os, back, known, words, described⟩ :=
    Operand.descriptors_readBack obey enough i.opcode 1
  refine ⟨os, back, ?_⟩
  have arity : os.length = i.opcode.arity := known
  rw [assemble, if_pos arity, described, words]
  rfl

end Instruction

/-- Decoder and assembler are inverse.  What is assembled decodes to the instruction as it was
written, with its operands in the operand bytes and the extra words.  And a word that decodes is
the encoding of its instruction, and is assembled from some operands, up to the bytes beyond the
arity and the register numbers of literals. -/
theorem assemble_decode_inverse :
    (∀ (opcode : Opcode) (privilege : UInt8) (os : List Operand) (words : List Word),
      assemble opcode privilege os = .ok words →
      ∃ (w : Word) (extras : List Word) (i : Instruction),
        words = w :: extras ∧ Instruction.decode w = .ok i ∧
        i.opcode = opcode ∧ i.privilege = privilege ∧
        i.operands.length = opcode.arity ∧ i.length = words.length ∧
        i.operands.map (·.kind) = os.map (·.kind) ∧
        extras = os.filterMap Operand.extraWord? ∧
        Operand.readBack i.operands extras = some os) ∧
    (∀ (w : Word) (i : Instruction), Instruction.decode w = .ok i →
      i.encode = Word.ofBytes w.byte0 w.byte1 (if 0 < i.opcode.arity then w.byte2 else 0)
        (if 1 < i.opcode.arity then w.byte3 else 0) ∧
      Instruction.decode i.encode = .ok i ∧
      ∀ extras : List Word, extras.length = i.extraWords →
        ∃ (os : List Operand) (w' : Word),
          Operand.readBack i.operands extras = some os ∧
          assemble i.opcode i.privilege os = .ok (w' :: extras) ∧
          w'.byte0 = w.byte0 ∧ w'.byte1 = w.byte1 ∧
          (0 < i.opcode.arity → OperandDescriptor.SameByte w.byte2 w'.byte2) ∧
          (1 < i.opcode.arity → OperandDescriptor.SameByte w.byte3 w'.byte3)) := by
  constructor
  · intro opcode privilege os words assembled
    obtain ⟨i, rfl, rfl, obey, describe, length, rfl⟩ := assemble_eq_ok assembled
    refine ⟨i.encode, _, i, rfl, Instruction.decode_encode obey, rfl, rfl,
      Instruction.length_of_operandsObey obey, length.symm, ?_, rfl,
      Operand.readBack_of_describes describe⟩
    exact List.forall₂_eq_eq_eq ▸ List.forall₂_map_left_iff.mpr
      (List.forall₂_map_right_iff.mpr (describe.flip.imp fun _ _ h => h.kind))
  · intro w i decoded
    have obey := Instruction.obeys_of_decode decoded
    refine ⟨Instruction.encode_of_decode decoded, Instruction.decode_encode obey, ?_⟩
    intro extras enough
    obtain ⟨os, back, assembled⟩ := Instruction.assemble_readBack obey enough
    obtain ⟨code, privilege, _⟩ := Instruction.bytes_of_decode decoded
    obtain ⟨first, second⟩ := Instruction.operandByte_of_decode decoded
    refine ⟨os, _, back, assembled, ?_, ?_, ?_, ?_⟩
    · rw [← code]
      exact Word.byte0_ofBytes ..
    · rw [← privilege]
      exact Word.byte1_ofBytes ..
    · intro taken
      rw [if_pos taken] at first
      rw [← first, Instruction.encode, Word.byte2_ofBytes]
      exact i.sameByte_plain 0
    · intro taken
      rw [if_pos taken] at second
      rw [← second, Instruction.encode, Word.byte3_ofBytes]
      exact i.sameByte_plain 1

/-- `MOV ds:r3(5), 7` both ways, and a `PUSH` whose word has bits that mean nothing: its highest
byte belongs to no operand and its literal has a register number. -/
theorem assemble_decode_inverse_samples :
    (∃ (w : Word) (extras : List Word) (i : Instruction),
      [0x00430320, 5, 7] = w :: extras ∧ Instruction.decode w = .ok i ∧
        Operand.readBack i.operands extras =
          some [.memory .ds (some 3) 5 false, .immediate 7]) ∧
    (⟨.push, 0, [⟨.immediate, 9⟩]⟩ : Instruction).encode = 0x00090050 ∧
    ∃ (os : List Operand) (w' : Word), assemble .push 0 os = .ok [w', 7] ∧
      OperandDescriptor.SameByte 0x09 w'.byte2 := by
  obtain ⟨written, read⟩ := assemble_decode_inverse
  have assembled : assemble .mov 3 [.memory .ds (some 3) 5 false, .immediate 7] =
      .ok [0x00430320, 5, 7] := rfl
  have decoded : Instruction.decode 0xAB090050 = .ok ⟨.push, 0, [⟨.immediate, 9⟩]⟩ := rfl
  obtain ⟨w, extras, i, same, found, _, _, _, _, _, _, back⟩ := written _ _ _ _ assembled
  obtain ⟨encoded, _, readable⟩ := read _ _ decoded
  obtain ⟨os, w', _, again, _, _, first, _⟩ := readable [7] rfl
  exact ⟨⟨w, extras, i, same, found, back⟩, encoded, os, w', again, first (by decide)⟩

end WordMachine
