import WordMachine.CommandLine.Arguments
import WordMachine.Listing.Next
import WordMachine.Machine.Report
import WordMachine.Machine.Run
import WordMachine.SelfTest
import WordMachine.Text.Utf8

/-!
# Carrying out commands

`Command.execute` says what a command prints and with which code it ends.  It
is given the contents of the image file, or the reason why there are none, so
that it need not read files itself.

What a running program prints comes first on standard output.  Everything the
simulator says about the run goes to standard error, the full report excepted.
-/

namespace WordMachine.CommandLine

/-- What a command comes to. -/
structure Report where
  /-- The exit code. -/
  code : UInt8 := 0
  /-- The bytes on standard output. -/
  output : List UInt8 := []
  /-- The bytes on standard error. -/
  errors : List UInt8 := []
deriving DecidableEq, Repr

namespace Report

/-- A report of text on standard output. -/
def say (text : String) : Report := { output := Text.Utf8.encode text }

/-- A report of a failure. -/
def fail (text : String) : Report := { code := 1, errors := Text.Utf8.encode s!"Error: {text}\n" }

/-- The report on arguments that do not fit. -/
def usage : Report :=
  { code := 2, errors := Text.Utf8.encode "Usage: vm32-sim [OPTIONS] [COMMAND]\n" }

end Report

/-- The greeting. -/
def greeting : String := "VM32 Simulator v0.1.0\n\nUse --help for available commands\n"

/-- The words of an image file that has to have some. -/
def loadImage (path : String) (file : Except FileError (List UInt8)) : Except String (List Word) :=
  match Image.ofFile file with
  | .error e => .error s!"failed to load {path}: {e.message}"
  | .ok [] => .error s!"{path} is empty"
  | .ok words => .ok words

/-! ## Running -/

/-- A run that came to its end. -/
structure FinishedRun where
  /-- The machine after it. -/
  machine : Machine
  /-- The lines on the executed instructions, and on the error that ended the run. -/
  lines : Array String
  /-- Whether an error ended it. -/
  failed : Bool

/-- The line on the next instruction, and the machine after looking at it. -/
def traceLine (m : Machine) : String × Machine :=
  let text : Action Empty String := Machine.nextText
  match text m with
  | .ok text m => (s!"{Text.hex8 m.processor.ip.toNat}  {text}", m)

/-- Takes steps until the machine stops, but at most as many as given. -/
def runSteps (trace : Bool) : Nat → Machine → Array String → FinishedRun
  | 0, m, lines => ⟨m, lines, false⟩
  | limit + 1, m, lines =>
    if m.isRunning then
      let (lines, m) := if trace then
          let (line, m) := traceLine m
          (lines.push line, m)
        else (lines, m)
      match Machine.step m with
      | .ok _ m => runSteps trace limit m lines
      | .error e m =>
        let place := Text.prefixedHex8 m.processor.ip.toNat
        ⟨m, lines.push s!"Error: CPU stopped at IP={place}: {e.message}", true⟩
    else ⟨m, lines, false⟩

/-- The full report on a machine. -/
def dumpText (m : Machine) : String :=
  let dump : Action Empty String := Machine.dump
  match dump m with
  | .ok text _ => text

/-- The lines on the state of a machine at the end of a run. -/
def summaryLines (m : Machine) : List String :=
  ["", m.processor.text, s!"Cycles: {m.cycles.toNat}  State: {m.status.name}"]

/-- What running words comes to. -/
def runReport (options : RunOptions) (words : List Word) : Report :=
  match Machine.initial.load words with
  | .error e => .fail s!"failed to load image: {e.message}"
  | .ok start =>
    let ⟨m, lines, failed⟩ := runSteps options.trace options.maxSteps start #[]
    let summary := if options.dumpState then [] else summaryLines m
    let notice := if m.isRunning then
        [s!"Reached step limit ({options.maxSteps}). Use --max-steps to increase."]
      else []
    let dump := if options.dumpState then dumpText m ++ "\n" else ""
    { code := if failed then 1 else 0
      output := m.console.toList ++ Text.Utf8.encode dump
      errors := Text.Utf8.encode
        (String.join ((lines.toList ++ summary ++ notice).map (· ++ "\n"))) }

/-! ## Commands -/

/-- What happens to a command that reads an image. -/
def withImage (path : String) (file : Except FileError (List UInt8)) (report : List Word → Report) :
    Report :=
  match loadImage path file with
  | .error text => .fail text
  | .ok words => report words

/-- What a command comes to.  A command that reads no image ignores `file`.  The debugger needs a
terminal, and there is none. -/
def Command.execute (file : Except FileError (List UInt8)) : Command → Report
  | greet => .say greeting
  | run path options => withImage path file (runReport options)
  | debug path => withImage path file fun _ =>
    .fail "debugger failed: No such device or address (os error 6)"
  | disasm path base => withImage path file fun words => .say (Listing.render base words)
  | test =>
    let (text, passed) := SelfTest.report
    { Report.say text with code := if passed then 0 else 1 }

/-- What arguments come to, with a way to read the file they may name. -/
def execute {m : Type → Type} [Monad m] (read : String → m (Except FileError (List UInt8)))
    (args : List String) : m Report :=
  match Command.parse args with
  | none => pure .usage
  | some command =>
    match command.image? with
    | none => pure (command.execute (.ok []))
    | some path => do return command.execute (← read path)

end WordMachine.CommandLine
