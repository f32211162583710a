import TildeLang.CommandLine.Arguments
import TildeLang.CommandLine.Directory
import TildeLang.Diagnostic
import TildeLang.Parse.Source
import TildeLang.Tree.Json

/-!
# Running a command line

A command line prints the syntax tree of a file, or its tokens, as JSON.  What
it does is a function of its words and of the text of the file; only reading
the file and printing are left to the outside.
-/

namespace TildeLang.CommandLine

/-- Why a command line that was carried out has no result. -/
inductive Failure where
  /-- The file cannot be read. -/
  | unreadable (path : String) (e : ReadError)
  /-- The source is refused; the diagnostic says why. -/
  | refused (e : Error) (diagnostic : String)
deriving DecidableEq, Repr

/-- The wording of a failure. -/
def Failure.message : Failure → String
  | unreadable path e => s!"could not read '{path}': {e.message}"
  | refused _ diagnostic => diagnostic

namespace Arguments

/-- The value that is printed for a source. -/
def result (a : Arguments) (source : String) : Except Error Json :=
  if a.tokens then
    match tokenize source with
    | .ok ts => .ok (Token.listToJson ts)
    | .error e => .error (.lexical e)
  else
    match TildeLang.parse source with
    | .ok program => .ok program.toJson
    | .error e => .error e

/-- The text that is printed for a file, given what reading it gave. -/
def run (a : Arguments) (contents : Except ReadError String) : Except Failure String :=
  match contents with
  | .error e => .error (.unreadable a.file e)
  | .ok source =>
      match a.result source with
      | .ok value => .ok (if a.compact then value.compact else value.pretty)
      | .error e => .error (.refused e (Diagnostic.render a.file source e))

end Arguments

/-- What a process leaves behind. -/
structure Outcome where
  exitCode : Nat
  stdout : String
  stderr : String
deriving DecidableEq, Repr

/-- The answer to a question about the version. -/
def versionText : String := "tilde 0.1.0\n"

/-- How the program is called. -/
def usageLine : String := "Usage: tilde [OPTIONS] [FILE]\n"

/-- The answer to a question about the program. -/
def helpText : String :=
  "Tilde language front-end - source text to AST\n" ++
  "\n" ++
  usageLine ++
  "\n" ++
  "Arguments:\n" ++
  "  [FILE]  Source file to parse [default: app.tilde]\n" ++
  "\n" ++
  "Options:\n" ++
  "      --compact  Print single-line JSON instead of indented JSON\n" ++
  "      --tokens   Print the token stream instead of the syntax tree\n" ++
  "  -h, --help     Print help\n" ++
  "  -V, --version  Print version\n"

/-- What is wrong with a command line that cannot be read. -/
def Misuse.describe : Misuse → String
  | unknownArgument => "unexpected argument"
  | argumentConflict => "a flag is given twice"
  | tooManyValues => "a flag takes no value"
  | invalidValue => "the file name is empty"

namespace Outcome

/-- The outcome of a command line that is not carried out. -/
def ofStop (s : Stop) : Outcome :=
  match s with
  | .help => ⟨s.exitCode, helpText, ""⟩
  | .version => ⟨s.exitCode, versionText, ""⟩
  | .misuse m => ⟨s.exitCode, "", "error: " ++ m.describe ++ "\n\n" ++ usageLine⟩

/-- The outcome of a command line that is carried out. -/
def ofResult : Except Failure String → Outcome
  | .ok text => ⟨0, text ++ "\n", ""⟩
  | .error (.refused _ diagnostic) => ⟨1, "", diagnostic⟩
  | .error e => ⟨1, "", "Error: " ++ e.message ++ "\n"⟩

end Outcome

/-- Carries out a command line, where `read` gives the contents of files. -/
def execute (read : String → Except ReadError String) (words : List String) : Outcome :=
  match Arguments.ofWords words with
  | .error s => .ofStop s
  | .ok a => .ofResult (a.run (read a.file))

end TildeLang.CommandLine
