/-!
# Numerals

Numbers are written in decimal, or in hexadecimal with lower-case digits.
`hex` is the plain hexadecimal numeral, `hex8` pads it with zeros to eight
digits, and `prefixedHex`, `prefixedHex8` put `0x` in front.  Padding never
cuts: a number with more digits than the width keeps them all.

`readNatural?` reads a numeral in a given base.  A leading `+` is allowed, at
least one digit is required, and the value must stay below the given bound.
-/

namespace WordMachine.Text

/-! ## Writing -/

/-- The digits of a number in base sixteen, the most significant first. -/
def hexDigits (n : Nat) : List Char :=
  if n < 16 then [Nat.digitChar n] else hexDigits (n / 16) ++ [Nat.digitChar (n % 16)]

/-- Text filled up on the left to a width. -/
def padLeft (width : Nat) (fill : Char) (text : List Char) : List Char :=
  List.replicate (width - text.length) fill ++ text

/-- Text filled up with blanks on the right to a width. -/
def padRight (width : Nat) (text : String) : String :=
  text ++ String.ofList (List.replicate (width - text.length) ' ')

/-- The hexadecimal numeral of a number. -/
def hex (n : Nat) : String := String.ofList (hexDigits n)

/-- The hexadecimal numeral of a number, in at least eight digits. -/
def hex8 (n : Nat) : String := String.ofList (padLeft 8 '0' (hexDigits n))

/-- The hexadecimal numeral of a number after `0x`. -/
def prefixedHex (n : Nat) : String := "0x" ++ hex n

/-- The hexadecimal numeral of a number after `0x`, in at least eight digits. -/
def prefixedHex8 (n : Nat) : String := "0x" ++ hex8 n

/-- The hexadecimal numeral of a number after `0x`, in at least two digits. -/
def prefixedHex2 (n : Nat) : String := "0x" ++ String.ofList (padLeft 2 '0' (hexDigits n))

example : hexDigits 0 = ['0'] := by simp [hexDigits]

/-! ## Reading -/

/-- The value of a digit in bases up to sixteen. -/
def digitValue? (c : Char) : Option Nat :=
  if '0' ≤ c ∧ c ≤ '9' then some (c.toNat - '0'.toNat)
  else if 'a' ≤ c ∧ c ≤ 'f' then some (c.toNat - 'a'.toNat + 10)
  else if 'A' ≤ c ∧ c ≤ 'F' then some (c.toNat - 'A'.toNat + 10)
  else none

/-- Reads digits into a value that starts at `acc`, keeping it below `bound`. -/
def readDigits? (base bound : Nat) : Nat → List Char → Option Nat
  | acc, [] => some acc
  | acc, c :: rest => do
      let d ← digitValue? c
      let value := acc * base + d
      if d < base ∧ value < bound then readDigits? base bound value rest else none

/-- The number a numeral stands for, if it is one in this base and below `bound`. -/
def readNatural? (base bound : Nat) (text : List Char) : Option Nat :=
  match text with
  | '+' :: digits => if digits.isEmpty then none else readDigits? base bound 0 digits
  | digits => if digits.isEmpty then none else readDigits? base bound 0 digits

example : readNatural? 10 256 ['+', '2', '5', '5'] = some 255 := by decide

example : readNatural? 10 256 ['2', '5', '6'] = none := by decide

example : readNatural? 16 256 [] = none := by decide

end WordMachine.Text
