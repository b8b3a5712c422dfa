/-!
# Machine words

The machine has one unit of storage and computation, the 32-bit word.
Addresses, register contents and instruction words are all words, and their
arithmetic wraps modulo `2 ^ 32`.

An address that comes from outside the machine may be wider.  It is a 64-bit
number, and `Word.ofAddress?` says whether a cell answers to it.

A word travels in an image as four bytes, the least significant first.
`Word.toBytes` and `Word.ofBytes` are the two directions.
-/

namespace WordMachine

/-- A 32-bit machine word. -/
abbrev Word := UInt32

namespace Word

/-- The number of words, and so of addresses: `2 ^ 32`. -/
def count : Nat := 0x100000000

/-- The word with every bit set. -/
def allOnes : Word := 0xFFFFFFFF

/-- The cell address a 64-bit number names, if it names one. -/
def ofAddress? (address : UInt64) : Option Word :=
  if address.toNat < count then some address.toUInt32 else none

/-! ## Bytes -/

/-- The word with the given bytes, the least significant first. -/
def ofBytes (b0 b1 b2 b3 : UInt8) : Word :=
  b0.toUInt32 ||| (b1.toUInt32 <<< 8) ||| (b2.toUInt32 <<< 16) ||| (b3.toUInt32 <<< 24)

/-- The lowest byte of a word. -/
def byte0 (w : Word) : UInt8 := w.toUInt8

/-- The byte of a word above its lowest. -/
def byte1 (w : Word) : UInt8 := (w >>> 8).toUInt8

/-- The byte of a word below its highest. -/
def byte2 (w : Word) : UInt8 := (w >>> 16).toUInt8

/-- The highest byte of a word. -/
def byte3 (w : Word) : UInt8 := (w >>> 24).toUInt8

/-- The four bytes of a word, the least significant first. -/
def toBytes (w : Word) : List UInt8 := [byte0 w, byte1 w, byte2 w, byte3 w]

theorem ofBytes_bytes (w : Word) : ofBytes (byte0 w) (byte1 w) (byte2 w) (byte3 w) = w := by
  apply UInt32.eq_of_toBitVec_eq
  simp only [ofBytes, byte0, byte1, byte2, byte3, UInt32.toBitVec_or, UInt32.toBitVec_shiftLeft,
    UInt8.toBitVec_toUInt32, UInt32.toBitVec_toUInt8, UInt32.toBitVec_shiftRight]
  ext i hi
  simp
  grind

@[simp] theorem byte0_ofBytes (a b c d : UInt8) : byte0 (ofBytes a b c d) = a := by
  apply UInt8.eq_of_toBitVec_eq
  ext i hi
  simp [byte0, ofBytes]

@[simp] theorem byte1_ofBytes (a b c d : UInt8) : byte1 (ofBytes a b c d) = b := by
  apply UInt8.eq_of_toBitVec_eq
  ext i hi
  simp [byte1, ofBytes]
  grind

@[simp] theorem byte2_ofBytes (a b c d : UInt8) : byte2 (ofBytes a b c d) = c := by
  apply UInt8.eq_of_toBitVec_eq
  ext i hi
  simp [byte2, ofBytes]
  grind

@[simp] theorem byte3_ofBytes (a b c d : UInt8) : byte3 (ofBytes a b c d) = d := by
  apply UInt8.eq_of_toBitVec_eq
  ext i hi
  simp [byte3, ofBytes]
  grind

theorem toBytes_ofBytes (a b c d : UInt8) : toBytes (ofBytes a b c d) = [a, b, c, d] := by
  simp [toBytes]

end Word

end WordMachine
