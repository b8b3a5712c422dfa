import WordMachine.Word
import WordMachine.Isa.Opcode

/-!
# Arithmetic

The two-operand operations on words.  All arithmetic wraps modulo `2 ^ 32`.
Division is the only operation that can fail, and only by zero.  A shift by 32
or more moves every bit out and leaves zero.

`NOT` takes two operands like the others and is a second name of `XOR`.
-/

namespace WordMachine

/-- A two-operand operation on words. -/
inductive ArithmeticOp where
  | add | sub | mul | div | mod
  | or | xor | and | shl | shr
deriving DecidableEq, Repr

namespace ArithmeticOp

/-- The operation an opcode performs, if it is an arithmetic opcode. -/
def ofOpcode? : Opcode → Option ArithmeticOp
  | .add => some .add
  | .sub => some .sub
  | .mul => some .mul
  | .div => some .div
  | .mod => some .mod
  | .or => some .or
  | .xor | .not => some .xor
  | .and => some .and
  | .shl => some .shl
  | .shr => some .shr
  | _ => none

/-- The value of the operation, `none` for a division by zero. -/
def evaluate? : ArithmeticOp → Word → Word → Option Word
  | add, a, b => some (a + b)
  | sub, a, b => some (a - b)
  | mul, a, b => some (a * b)
  | div, a, b => if b = 0 then none else some (a / b)
  | mod, a, b => if b = 0 then none else some (a % b)
  | or, a, b => some (a ||| b)
  | xor, a, b => some (a ^^^ b)
  | and, a, b => some (a &&& b)
  | shl, a, b => some (if b < 32 then a <<< b else 0)
  | shr, a, b => some (if b < 32 then a >>> b else 0)

theorem evaluate?_eq_none_iff (op : ArithmeticOp) (a b : Word) :
    op.evaluate? a b = none ↔ (op = div ∨ op = mod) ∧ b = 0 := by
  cases op <;> simp [evaluate?]

example : evaluate? .add 0xFFFFFFFF 1 = some 0 := by decide

example : evaluate? .sub 0 1 = some 0xFFFFFFFF := by decide

example : evaluate? .shl 1 32 = some 0 := by decide

end ArithmeticOp

end WordMachine
