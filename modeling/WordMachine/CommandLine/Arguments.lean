import WordMachine.Word
import WordMachine.Text.Numeral

/-!
# Arguments

The command line names a command, its operands and its options.  An option
starts with a hyphen.  It has a short form of one letter or a long form of a
word, or both.  Some options take a value, which is the next argument, or
follows the long form after `=`, or follows the short form directly.  Short
forms without values may be written together.  After `--` everything is an
operand.

`Command.parse` answers `none` where the arguments do not fit: an unknown
option or command, a value that is missing or cannot be read, an option given
twice, or too few or too many operands.
-/

namespace WordMachine.CommandLine

/-! ## Options -/

/-- An option of a command. -/
structure OptionForm where
  /-- The word of the long form. -/
  long : String
  /-- The letter of the short form, if there is one. -/
  short : Option Char
  /-- Whether it takes a value. -/
  hasValue : Bool := false
  /-- Whether it may be given more than once. -/
  repeats : Bool := false
deriving DecidableEq, Repr

/-- What one argument, or two, come to. -/
inductive Item where
  /-- An operand. -/
  | operand (text : String)
  /-- An option, with its value if it takes one. -/
  | option (form : OptionForm) (value : Option String)
deriving DecidableEq, Repr

/-- The options every command has. -/
def globalForms : List OptionForm := [
  { long := "verbose", short := some 'v', repeats := true },
  { long := "quiet", short := some 'q' }]

/-- Whether an argument looks like an option.  A single hyphen does not. -/
def looksLikeOption (arg : List Char) : Bool :=
  match arg with
  | '-' :: _ :: _ => true
  | _ => false

/-- The part of an argument before the first `=`, and the part after it. -/
def splitAtEquals (arg : List Char) : List Char × Option (List Char) :=
  match arg.dropWhile (· ≠ '=') with
  | _ :: value => (arg.takeWhile (· ≠ '='), some value)
  | [] => (arg, none)

/-- What short forms written together come to.  The last of them may take a value, which is the
rest of the argument.  Otherwise the second part is the option that still needs one. -/
def cluster (forms : List OptionForm) :
    List Char → Option (List Item × Option OptionForm)
  | [] => some ([], none)
  | letter :: rest => do
    let form ← forms.find? (·.short == some letter)
    if form.hasValue then
      match rest with
      | [] => return ([], some form)
      | '=' :: value | value => return ([.option form (some (String.ofList value))], none)
    else
      let (items, pending) ← cluster forms rest
      return (.option form none :: items, pending)

/-- What a long form comes to, and the option if it still needs a value. -/
def longForm (forms : List OptionForm) (arg : List Char) :
    Option (List Item × Option OptionForm) := do
  let (name, value) := splitAtEquals arg
  let form ← forms.find? (·.long == String.ofList name)
  match value, form.hasValue with
  | some v, true => return ([.option form (some (String.ofList v))], none)
  | none, true => return ([], some form)
  | none, false => return ([.option form none], none)
  | some _, false => none

/-- Reads arguments.  `pending` is an option that takes the next one as its value. -/
def readItems (forms : List OptionForm) : Option OptionForm → List String → Option (List Item)
  | some _, [] => none
  | some form, value :: rest => do
      if looksLikeOption value.toList then none
      else
        let items ← readItems forms none rest
        return .option form (some value) :: items
  | none, [] => some []
  | none, arg :: rest =>
    match arg.toList with
    | ['-', '-'] => some (rest.map .operand)
    | '-' :: '-' :: name => do
      let (items, pending) ← longForm forms name
      return items ++ (← readItems forms pending rest)
    | '-' :: letter :: letters => do
      let (items, pending) ← cluster forms (letter :: letters)
      return items ++ (← readItems forms pending rest)
    | _ => do return .operand arg :: (← readItems forms none rest)

/-- The operands among items. -/
def operands (items : List Item) : List String :=
  items.filterMap fun
    | .operand text => some text
    | .option .. => none

/-- The values an option was given, `none` for one without value. -/
def occurrences (items : List Item) (long : String) : List (Option String) :=
  items.filterMap fun
    | .operand _ => none
    | .option form value => if form.long = long then some value else none

/-- Whether no option that may be given once was given more often. -/
def occurOnce (forms : List OptionForm) (items : List Item) : Bool :=
  forms.all fun form => form.repeats || (occurrences items form.long).length ≤ 1

/-! ## Commands -/

/-- How to run an image. -/
structure RunOptions where
  /-- The greatest number of steps. -/
  maxSteps : Nat := 1000000
  /-- Whether each instruction is printed before it is executed. -/
  trace : Bool := false
  /-- Whether the final state is printed in full. -/
  dumpState : Bool := false
deriving DecidableEq, Repr

/-- What the command line asks for. -/
inductive Command where
  /-- A word of greeting. -/
  | greet
  /-- Running an image. -/
  | run (image : String) (options : RunOptions)
  /-- Debugging an image. -/
  | debug (image : String)
  /-- A listing of an image whose first word is at the address `base`. -/
  | disasm (image : String) (base : Word)
  /-- The self-test. -/
  | test
deriving DecidableEq, Repr

/-- The number of steps in an option. -/
def readSteps? (text : String) : Option Nat := Text.readNatural? 10 UInt64.size text.toList

/-- The address in an option, in decimal, or in hexadecimal after `0x` or `0X`. -/
def readAddress? (text : String) : Option Word :=
  UInt32.ofNat <$> match text.toList with
    | '0' :: 'x' :: digits | '0' :: 'X' :: digits => Text.readNatural? 16 Word.count digits
    | digits => Text.readNatural? 10 Word.count digits

/-- The value of an option read with `read`, or `default` where it is not given. -/
def optionValue {α : Type} (items : List Item) (long : String) (default : α)
    (read : String → Option α) : Option α :=
  match occurrences items long with
  | some text :: _ => read text
  | _ => some default

/-- Whether an option is given. -/
def isGiven (items : List Item) (long : String) : Bool := !(occurrences items long).isEmpty

/-- The items of a command with the given options, if they fit. -/
def readCommand (forms : List OptionForm) (args : List String) : Option (List Item) := do
  let forms := forms ++ globalForms
  let items ← readItems forms none args
  if occurOnce forms items then return items else none

/-- The only operand among items. -/
def onlyOperand (items : List Item) : Option String :=
  match operands items with
  | [text] => some text
  | _ => none

/-- The options of `run`. -/
def runForms : List OptionForm := [
  { long := "max-steps", short := some 'm', hasValue := true },
  { long := "trace", short := some 't' },
  { long := "dump-state", short := none }]

/-- The options of `disasm`. -/
def disasmForms : List OptionForm := [{ long := "base", short := some 'b', hasValue := true }]

namespace Command

/-- The command with the given name and arguments. -/
def ofName (name : String) (args : List String) : Option Command :=
  match name with
  | "run" => do
    let items ← readCommand runForms args
    let image ← onlyOperand items
    let maxSteps ← optionValue items "max-steps" 1000000 readSteps?
    return run image {
      maxSteps, trace := isGiven items "trace", dumpState := isGiven items "dump-state" }
  | "debug" => do
    let items ← readCommand [] args
    return debug (← onlyOperand items)
  | "disasm" => do
    let items ← readCommand disasmForms args
    let image ← onlyOperand items
    return disasm image (← optionValue items "base" 0 readAddress?)
  | "test" => do
    let items ← readCommand [] args
    if (operands items).isEmpty then return test else none
  | _ => none

/-- The command that arguments ask for.  Options may stand before its name.  Where there is no name
there may be no operands either, so a `--` that ends the options ends the arguments. -/
def parse (args : List String) : Option Command := do
  let before := args.takeWhile fun arg => looksLikeOption arg.toList && arg != "--"
  let _ ← readCommand [] before
  match args.drop before.length with
  | [] | ["--"] => return greet
  | name :: rest => ofName name rest

example : parse ["-v", "--"] = some greet := by decide +kernel

example : parse ["--", "test"] = none := by decide +kernel

example : parse ["test", "--"] = some test := by decide +kernel

/-- The image file that a command reads. -/
def image? : Command → Option String
  | run image _ | debug image | disasm image _ => some image
  | greet | test => none

end Command

end WordMachine.CommandLine
