import WordMachine.Machine.Translation

/-!
# The stack

The stack grows towards lower offsets and the stack pointer is the offset of
its top.  A push or a pop that fails leaves the stack pointer where it was.
-/

namespace WordMachine.Machine

/-- Puts a word on the stack. -/
def push (value : Word) : Action Exception Unit := do
  let sp := (← processorState).sp - 1
  let address ← translate .stack sp
  writeCell address value
  modifyProcessor fun p => { p with sp }

/-- Puts words on the stack, the first one deepest. -/
def pushAll : List Word → Action Exception Unit
  | [] => pure ()
  | word :: rest => do
      push word
      pushAll rest

/-- Takes the top word off the stack. -/
def pop : Action Exception Word := do
  let sp := (← processorState).sp
  let address ← translate .stack sp
  let value ← readCell address
  modifyProcessor fun p => { p with sp := sp + 1 }
  return value

/-- Puts the frame of an interrupt on the stack.  A fault there is a double fault. -/
def pushFrame (number : Word) (words : List Word) : Action FatalError Unit :=
  (pushAll words).adaptExcept fun
    | .fatal e => e
    | .fault f => .doubleFault number f

end WordMachine.Machine
