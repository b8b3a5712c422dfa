import WordMachine.CommandLine.Report

/-!
# The program

Reads the image file that the arguments name, if any, carries out the command
and writes what it comes to.
-/

open WordMachine WordMachine.CommandLine

/-- The number the system gives a failure.  It may come with its sign changed. -/
def systemNumber : IO.Error → Nat
  | .noFileOrDirectory _ code _ | .permissionDenied _ code _ | .inappropriateType _ code _
  | .invalidArgument _ code _ | .noSuchThing _ code _ | .alreadyExists _ code _
  | .resourceExhausted _ code _ => code.toInt32.toInt.natAbs
  | _ => 0

/-- The reason why a file could not be read. -/
def readFailure (e : IO.Error) : FileError :=
  (FileError.ofNumber? (systemNumber e)).getD (.other (toString e))

/-- The contents of a file, or the reason why there are none. -/
def readImage (path : String) : IO (Except FileError (List UInt8)) := do
  try
    return .ok (← IO.FS.readBinFile path).toList
  catch e => return .error (readFailure e)

/-- Carries out the command line. -/
def main (args : List String) : IO UInt32 := do
  let report ← execute readImage args
  let output ← IO.getStdout
  let errors ← IO.getStderr
  output.write ⟨report.output.toArray⟩
  output.flush
  errors.write ⟨report.errors.toArray⟩
  return report.code.toUInt32
