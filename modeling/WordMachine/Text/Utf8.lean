/-!
# Reading UTF-8

`Utf8.decode` turns any sequence of bytes into text.  A byte that starts no
character, and the longest start of a character that does not go on, each
become one replacement character.  The byte that broke a character off is then
read afresh.

The first byte of a character fixes how many bytes follow and bounds the first
of those.  The bounds exclude overlong forms, surrogates and numbers above
`0x10FFFF`.
-/

namespace WordMachine.Text.Utf8

/-- What stands for bytes that are no character. -/
def replacement : Char := '\ufffd'

/-- A character whose first bytes have been read. -/
structure Started where
  /-- The bits read so far. -/
  bits : Nat
  /-- The number of bytes to follow after the next one. -/
  more : Nat
  /-- The least value of the next byte. -/
  low : UInt8 := 0x80
  /-- The greatest value of the next byte. -/
  high : UInt8 := 0xBF
deriving DecidableEq, Repr

/-- The characters completed by a byte that is not inside a character, and the character it
starts. -/
def start (b : UInt8) : List Char × Option Started :=
  if b < 0x80 then ([Char.ofNat b.toNat], none)
  else if b < 0xC2 then ([replacement], none)
  else if b < 0xE0 then ([], some { bits := b.toNat - 0xC0, more := 0 })
  else if b < 0xF0 then
    ([], some {
      bits := b.toNat - 0xE0, more := 1
      low := if b = 0xE0 then 0xA0 else 0x80
      high := if b = 0xED then 0x9F else 0xBF })
  else if b < 0xF5 then
    ([], some {
      bits := b.toNat - 0xF0, more := 2
      low := if b = 0xF0 then 0x90 else 0x80
      high := if b = 0xF4 then 0x8F else 0xBF })
  else ([replacement], none)

/-- The characters completed by the next byte, and the character it leaves unfinished. -/
def advance (pending : Option Started) (b : UInt8) : List Char × Option Started :=
  match pending with
  | none => start b
  | some s =>
    if s.low ≤ b ∧ b ≤ s.high then
      let bits := s.bits * 64 + (b.toNat - 0x80)
      match s.more with
      | 0 => ([Char.ofNat bits], none)
      | more + 1 => ([], some { bits, more })
    else
      let (done, rest) := start b
      (replacement :: done, rest)

/-- The characters in bytes that go on from an unfinished character. -/
def decodeFrom : Option Started → List UInt8 → List Char
  | none, [] => []
  | some _, [] => [replacement]
  | pending, b :: bytes => (advance pending b).1 ++ decodeFrom (advance pending b).2 bytes

/-- The text that bytes stand for. -/
def decode (bytes : List UInt8) : String := String.ofList (decodeFrom none bytes)

/-- The bytes of a text. -/
def encode (text : String) : List UInt8 := text.toUTF8.toList

example : decodeFrom none [0x41, 0xC3, 0xA9] = ['A', 'é'] := by decide

example : decodeFrom none [0xF0, 0x9F, 0x98, 0x80] = ['😀'] := by decide

example : decodeFrom none [0xE2, 0x82, 0x41] = [replacement, 'A'] := by decide

example : decodeFrom none [0xED, 0xA0, 0x80] = [replacement, replacement, replacement] := by decide

end WordMachine.Text.Utf8
