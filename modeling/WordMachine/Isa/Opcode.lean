import WordMachine.Isa.OperandKind

/-!
# The instruction set

`Opcode.form` is the instruction table.  For each opcode it gives the opcode
byte, the mnemonic, and the class of modes accepted in each operand position.
The number of classes is the arity.  Everything else that knows the
instruction set, decoding and assembling and listing, reads this table.

The high nibble of the opcode byte groups the instructions: arithmetic,
bitwise, moves and control of the machine, comparison, branches, stack,
interrupts and guests.
-/

namespace WordMachine

/-- An operation of the machine. -/
inductive Opcode where
  | add | sub | mul | div | mod
  | or | xor | and | not | shl | shr
  | mov | nop | halt | print
  | cmp
  | jmp | jz | jnz | jgt | jge | call | ret | retn
  | push | pop | enter | leave | getArgument
  | int | reti | vmResume | cli | sti
deriving DecidableEq, Repr, Inhabited

/-- What the instruction table says about one opcode. -/
structure InstructionForm where
  /-- The opcode byte. -/
  code : UInt8
  /-- The name in assembly text. -/
  mnemonic : String
  /-- The modes accepted in each operand position. -/
  operands : List OperandClass

namespace Opcode

/-- The instruction table. -/
def form : Opcode → InstructionForm
  | add => ⟨0x00, "ADD", [.destination, .source]⟩
  | sub => ⟨0x01, "SUB", [.destination, .source]⟩
  | mul => ⟨0x02, "MUL", [.destination, .source]⟩
  | div => ⟨0x03, "DIV", [.destination, .source]⟩
  | mod => ⟨0x04, "MOD", [.destination, .source]⟩
  | or => ⟨0x10, "OR", [.destination, .source]⟩
  | xor => ⟨0x11, "XOR", [.destination, .source]⟩
  | and => ⟨0x12, "AND", [.destination, .source]⟩
  | not => ⟨0x13, "NOT", [.destination, .source]⟩
  | shl => ⟨0x14, "SHL", [.destination, .source]⟩
  | shr => ⟨0x15, "SHR", [.destination, .source]⟩
  | mov => ⟨0x20, "MOV", [.moveDestination, .moveSource]⟩
  | nop => ⟨0x21, "NOP", []⟩
  | halt => ⟨0x22, "HALT", []⟩
  | print => ⟨0x23, "PRINT", [.source]⟩
  | cmp => ⟨0x30, "CMP", [.destination, .source]⟩
  | jmp => ⟨0x40, "JMP", [.source]⟩
  | jz => ⟨0x41, "JZ", [.source]⟩
  | jnz => ⟨0x42, "JNZ", [.source]⟩
  | jgt => ⟨0x43, "JGT", [.source]⟩
  | jge => ⟨0x44, "JGE", [.source]⟩
  | call => ⟨0x45, "CALL", [.source]⟩
  | ret => ⟨0x46, "RET", []⟩
  | retn => ⟨0x47, "RETN", [.source]⟩
  | push => ⟨0x50, "PUSH", [.source]⟩
  | pop => ⟨0x51, "POP", [.destination]⟩
  | enter => ⟨0x52, "ENTER", [.source]⟩
  | leave => ⟨0x53, "LEAVE", []⟩
  | getArgument => ⟨0x54, "GETARGUMENT", [.destination, .source]⟩
  | int => ⟨0x60, "INT", [.literal]⟩
  | reti => ⟨0x61, "RETI", []⟩
  | vmResume => ⟨0x62, "VMRESUME", [.source]⟩
  | cli => ⟨0x63, "CLI", []⟩
  | sti => ⟨0x64, "STI", []⟩

/-- All opcodes, in the order of their bytes. -/
def all : List Opcode :=
  [.add, .sub, .mul, .div, .mod, .or, .xor, .and, .not, .shl, .shr, .mov, .nop, .halt, .print,
    .cmp, .jmp, .jz, .jnz, .jgt, .jge, .call, .ret, .retn, .push, .pop, .enter, .leave,
    .getArgument, .int, .reti, .vmResume, .cli, .sti]

theorem mem_all (o : Opcode) : o ∈ all := by cases o <;> decide

/-- The opcode byte. -/
def code (o : Opcode) : UInt8 := o.form.code

/-- The name in assembly text. -/
def mnemonic (o : Opcode) : String := o.form.mnemonic

/-- The number of operands. -/
def arity (o : Opcode) : Nat := o.form.operands.length

/-- Whether a mode is legal in an operand position, counted from zero. -/
def accepts (o : Opcode) (position : Nat) (k : OperandKind) : Bool :=
  o.form.operands[position]?.any (·.accepts k)

/-- The opcode with the given byte. -/
def ofCode? (code : UInt8) : Option Opcode := all.find? (·.code == code)

/-- The opcode with the given mnemonic.  The case of ASCII letters does not matter. -/
def ofMnemonic? (name : String) : Option Opcode := all.find? (·.mnemonic == name.toUpper)

theorem ofCode?_code (o : Opcode) : ofCode? o.code = some o := by cases o <;> decide

theorem arity_le (o : Opcode) : o.arity ≤ 2 := by cases o <;> decide

example : ofCode? 0x05 = none := by decide

example : accepts .add 0 .immediate = false := by decide

example : accepts .halt 0 .register = false := by decide

end Opcode

end WordMachine
