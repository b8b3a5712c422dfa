import WordMachine.Listing.Basic
import WordMachine.Machine.Translation

/-!
# The instruction at an address

`Memory.line` is the line for the instruction at an address of memory.  At the
end of memory it takes as many words as there are.  `Machine.nextText` is the
text of the next instruction.  It asks for all the words an instruction can
have, and is `??` where there are not as many or where the instruction pointer
does not translate.
-/

namespace WordMachine

/-- The number of words of the longest instruction. -/
def longestInstruction : Nat := 3

namespace Memory

/-- The contents of consecutive cells, as many as there are. -/
def window (m : Memory) (address : Word) (length : Nat) : List Word :=
  (List.range (min length (Word.count - address.toNat))).map fun i =>
    m.get (address + UInt32.ofNat i)

/-- The line for the instruction at an address. -/
def line (m : Memory) (address : Word) : Listing.Line :=
  Listing.lineAt address (m.get address) (m.window address longestInstruction).tail

end Memory

/-- The text of an instruction that cannot be shown. -/
def unknownText : String := "??"

/-- The text of the next instruction. -/
def Machine.nextText {ε : Type} : Action ε String := do
  match ← nextInstructionAddress.attempt with
  | .error _ => return unknownText
  | .ok address =>
    match (← get).memory.readRange address.toUInt64 longestInstruction with
    | .error _ => return unknownText
    | .ok words => return Listing.firstText words

end WordMachine
