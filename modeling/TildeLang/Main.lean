import TildeLang.CommandLine.Run

/-!
# The program

Reads the words of the command line and the file that they name, and prints
the outcome.
-/

namespace TildeLang.CommandLine

/-- Why the system could not read a file.  Error 21 is a directory in place of
a file; the sign of the number depends on the call that failed. -/
def ReadError.ofSystem : IO.Error → ReadError
  | .noFileOrDirectory .. => .missing
  | .inappropriateType _ code _ =>
      if code = 21 ∨ code = -21 then .isDirectory else .notDirectory
  | e => .other (toString e)

/-- The text of a file. -/
def readText (path : String) : IO (Except ReadError String) := do
  match ← (IO.FS.readBinFile path).toBaseIO with
  | .ok bytes => return decodeText bytes
  | .error e => return .error (.ofSystem e)

/-- Prints an outcome. -/
def Outcome.report (o : Outcome) : IO UInt32 := do
  IO.print o.stdout
  IO.eprint o.stderr
  return o.exitCode.toUInt32

end TildeLang.CommandLine

open TildeLang.CommandLine in
/-- Carries out the command line. -/
def main (words : List String) : IO UInt32 := do
  match Arguments.ofWords words with
  | .error s => (Outcome.ofStop s).report
  | .ok a => (Outcome.ofResult (a.run (← readText a.file))).report
