import WordMachine.Isa.Opcode
import WordMachine.Isa.Register

/-!
# Comparison and conditions

`CMP` compares two words as unsigned numbers and records the outcome in two
flags, "equal" and "at least".  A jump tests them.  After a comparison of `a`
with `b`, a condition holds exactly when `a` and `b` stand in its relation
(`Condition.holds_comparison`).
-/

namespace WordMachine

/-- The flags that record the comparison of `a` with `b`. -/
def Flags.comparison (a b : Word) : Flags := .make (a == b) (b ≤ a)

/-- The condition of a jump. -/
inductive Condition where
  | always | zero | notZero | greater | greaterEqual
deriving DecidableEq, Repr

namespace Condition

/-- The condition an opcode jumps on, if it is a jump. -/
def ofOpcode? : Opcode → Option Condition
  | .jmp => some .always
  | .jz => some .zero
  | .jnz => some .notZero
  | .jgt => some .greater
  | .jge => some .greaterEqual
  | _ => none

/-- Whether a condition holds of the flags. -/
def holds : Condition → Flags → Bool
  | always, _ => true
  | zero, f => f.zero
  | notZero, f => !f.zero
  | greater, f => f.greaterEqual && !f.zero
  | greaterEqual, f => f.greaterEqual

/-- The relation between two compared words that a condition stands for. -/
def Relates : Condition → Word → Word → Prop
  | always, _, _ => True
  | zero, a, b => a = b
  | notZero, a, b => a ≠ b
  | greater, a, b => b < a
  | greaterEqual, a, b => b ≤ a

theorem holds_comparison (c : Condition) (a b : Word) :
    c.holds (.comparison a b) ↔ c.Relates a b := by
  cases c <;>
    simp [holds, Relates, Flags.comparison, Flags.zero_make, Flags.greaterEqual_make]
  rw [UInt32.lt_iff_le_and_ne, ne_comm]

end Condition

end WordMachine
