import WordMachine.Assembly.Program
import WordMachine.Machine.Run
import WordMachine.Text.Utf8

/-!
# The self-test

Each check assembles a small program, runs it on a new machine and compares
what it left behind with what it should.  `report` runs them all.  A check that
fails says what it found.
-/

namespace WordMachine.SelfTest

/-! ## Building and running -/

/-- A part of a program. -/
inductive Piece where
  /-- An instruction. -/
  | code (opcode : Opcode) (operands : List Operand)
  /-- Padding up to an address. -/
  | upTo (address : Word)

/-- The program with pieces added. -/
def extend (p : Program) : List Piece → Except EncodeError Program
  | [] => .ok p
  | .code opcode operands :: rest => do
      let (_, p) ← p.emit opcode 0 operands
      extend p rest
  | .upTo address :: rest => extend (p.padTo address) rest

/-- The words of a program in pieces. -/
def build (pieces : List Piece) : Except String (List Word) :=
  ((extend {} pieces).map (·.words)).mapError (·.message)

/-- The machine after it ran words until it halted, within a number of steps. -/
def runWords (limit : Nat) (words : List Word) : Except String Machine := do
  let m ← (Machine.initial.load words).mapError (·.message)
  match Machine.runLimited limit m with
  | .error e _ => throw e.message
  | .ok _ m =>
    if m.isHalted then return m
    else throw s!"did not halt, IP={Text.prefixedHex m.processor.ip.toNat}"

/-- Compares a word with what it should be. -/
def expect (what : String) (got want : Word) : Except String Unit :=
  if got = want then .ok ()
  else .error (s!"{what} = {Text.prefixedHex got.toNat}, " ++
    s!"expected {Text.prefixedHex want.toNat}")

/-- The value of a general register. -/
def register (m : Machine) (index : Nat) : Except String Word :=
  match Machine.readRegister index m with
  | .ok value _ => .ok value
  | .error e _ => .error e.message

/-- A general register as an operand. -/
def reg (index : Nat) : Operand := .register index

/-- A literal as an operand. -/
def imm (value : Word) : Operand := .immediate value

/-! ## Checks -/

/-- A check of the machine. -/
structure Check where
  /-- What it checks. -/
  name : String
  /-- Its outcome. -/
  outcome : Unit → Except String Unit

/-- A machine that halts. -/
def halting : Check := ⟨"HALT stops the CPU", fun _ => do
  let m ← runWords 10000 (← build [.code .halt []])
  expect "IP" m.processor.ip 0⟩

/-- An addition that wraps. -/
def wrapping : Check := ⟨"arithmetic wraps modulo 2^32", fun _ => do
  let m ← runWords 10000 (← build [
    .code .mov [reg 0, imm 0xFFFFFFFF],
    .code .add [reg 0, imm 2],
    .code .halt []])
  expect "r0" (← register m 0) 1⟩

/-- A call with two arguments. -/
def calling : Check := ⟨"CALL/RET with stack frame", fun _ => do
  let m ← runWords 10000 (← build [
    .code .push [imm 40],
    .code .push [imm 2],
    .code .call [imm 0x10],
    .code .halt [],
    .upTo 0x10,
    .code .enter [imm 0],
    .code .getArgument [reg 0, imm 0],
    .code .getArgument [reg 1, imm 1],
    .code .add [reg 0, reg 1],
    .code .leave [],
    .code .retn [imm 2]])
  expect "r0" (← register m 0) 42
  expect "SP" m.processor.sp 0x2000⟩

/-- A division by zero with a handler that records it. -/
def dividing : Check := ⟨"divide by zero interrupt", fun _ => do
  let m ← runWords 10000 (← build [
    .code .jmp [imm 0x10],
    .upTo 6,
    .code .jmp [imm 0x20],
    .upTo 0x10,
    .code .mov [reg 0, imm 7],
    .code .div [reg 0, imm 0],
    .code .halt [],
    .upTo 0x20,
    .code .mov [.memory .ds none 0x100 false, imm 0xD0],
    .code .halt []])
  expect "r0" (← register m 0) 7
  expect "mem[0x100]" (m.memory.get 0x100) 0xD0⟩

/-- Four printed bytes. -/
def printing : Check := ⟨"console output", fun _ => do
  let bytes : List UInt8 := [0x56, 0x4D, 0x33, 0x32]
  let m ← runWords 10000 (← build
    (bytes.map (fun b => .code .print [imm b.toUInt32]) ++ [.code .halt []]))
  if m.console.toList = bytes then .ok ()
  else .error ("output \"" ++ Text.Utf8.decode m.console.toList ++ "\"")⟩

/-- The address of the guest table in the last check. -/
def tableAddress : Word := 0x400

/-- The offset at which the guest of the last check starts. -/
def guestAddress : Word := 0x100

/-- A guest that prints and so comes back to the host.  The host finds the byte, the reason and the
number of the guest on its stack. -/
def trapping : Check := ⟨"guest PRINT exits to hypervisor", fun _ => do
  let code ← build [
    .code .mov [.control .guestTable, imm tableAddress],
    .code .vmResume [imm 1],
    .code .pop [reg 0],
    .code .pop [reg 1],
    .code .pop [reg 2],
    .code .halt [],
    .upTo guestAddress,
    .code .print [imm 0x21],
    .code .halt []]
  let host : Context := {}
  let guest : Context := { ip := guestAddress, sp := 0x3000 }
  let gap := List.replicate (tableAddress.toNat - code.length) Memory.blank
  let table := host.toRow.toList ++ guest.toRow.toList ++ [Memory.blank]
  let m ← runWords 100 (code ++ gap ++ table)
  expect "guest id" (← register m 0) 1
  expect "reason" (← register m 1) 9
  expect "value" (← register m 2) 0x21⟩

/-- All checks. -/
def checks : List Check := [halting, wrapping, calling, dividing, printing, trapping]

/-! ## Report -/

/-- The line for a check that was run. -/
def line (name : String) : Except String Unit → String
  | .ok () => s!"  ok    {name}\n"
  | .error reason => s!"  FAIL  {name}: {reason}\n"

/-- The report on all checks, and whether they all passed. -/
def report : String × Bool :=
  let outcomes := checks.map fun c => (c.name, c.outcome ())
  let lines := outcomes.map fun (name, outcome) => line name outcome
  let passed := outcomes.countP (·.2.isOk)
  let failed := outcomes.length - passed
  ("VM32 Simulator Self-Test\n\n" ++ String.join lines ++
    s!"\nResults: {passed} passed, {failed} failed\n", failed == 0)

end WordMachine.SelfTest
