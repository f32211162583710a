/-!
# Arguments of the command line

The words of a command line name a file and set flags.  They are read from
left to right, and the first word that cannot be read, or that asks for help
or for the version, decides.

* `--compact` and `--tokens` set a flag, once each;
* `--help`, `-h`, `--version` and `-V` ask for an answer;
* `--` ends the flags: every later word is a file name;
* any other word that starts with a hyphen is no known flag, but a hyphen
  alone is a file name;
* there is one file name at most, and it is not empty.
-/

namespace TildeLang.CommandLine

/-- What a command line asks for. -/
structure Arguments where
  file : String
  compact : Bool
  tokens : Bool
deriving DecidableEq, Repr

/-- What can be wrong with a command line. -/
inductive Misuse where
  /-- A flag is not known, or there is a second file name. -/
  | unknownArgument
  /-- A flag is set twice. -/
  | argumentConflict
  /-- A flag is given a value. -/
  | tooManyValues
  /-- The file name is empty. -/
  | invalidValue
deriving DecidableEq, Repr

/-- Why a command line is not carried out: it asks a question, or it cannot be
read. -/
inductive Stop where
  | help
  | version
  | misuse (m : Misuse)
deriving DecidableEq, Repr

/-- The exit code of a command line that is not carried out.  Answering a
question is a success. -/
def Stop.exitCode : Stop → Nat
  | help => 0
  | version => 0
  | misuse _ => 2

/-- The flags. -/
inductive Flag where
  | compact
  | tokens
  | help
  | version
deriving DecidableEq, Repr

/-- The flag that a word after two hyphens names. -/
def Flag.ofLong? (name : List Char) : Option Flag :=
  match String.ofList name with
  | "compact" => some compact
  | "tokens" => some tokens
  | "help" => some help
  | "version" => some version
  | _ => none

/-- The flag that a letter after one hyphen names. -/
def Flag.ofShort? : Char → Option Flag
  | 'h' => some help
  | 'V' => some version
  | _ => none

/-- The words read so far. -/
structure Draft where
  file : Option String
  compact : Bool
  tokens : Bool

namespace Draft

/-- Nothing has been read. -/
def empty : Draft := ⟨none, false, false⟩

/-- Takes a word as the name of the file. -/
def takeFile (d : Draft) (word : String) : Except Stop Draft :=
  if d.file.isSome then .error (.misuse .unknownArgument)
  else .ok { d with file := some word }

/-- Sets a flag.  An empty file name before it is noticed here. -/
def takeFlag (d : Draft) (flag : Flag) : Except Stop Draft :=
  if d.file = some "" then .error (.misuse .invalidValue)
  else match flag with
    | .help => .error .help
    | .version => .error .version
    | .compact =>
        if d.compact then .error (.misuse .argumentConflict)
        else .ok { d with compact := true }
    | .tokens =>
        if d.tokens then .error (.misuse .argumentConflict)
        else .ok { d with tokens := true }

/-- Takes what follows two hyphens: the name of a flag, to which no value may
be attached. -/
def takeLong (d : Draft) (word : List Char) : Except Stop Draft :=
  match Flag.ofLong? (word.takeWhile (· != '=')) with
  | none => .error (.misuse .unknownArgument)
  | some flag => if '=' ∈ word then .error (.misuse .tooManyValues) else d.takeFlag flag

/-- Takes a letter after one hyphen.  All such letters end the reading, so the
ones after it are never looked at. -/
def takeShort (d : Draft) (letter : Char) : Except Stop Draft :=
  match Flag.ofShort? letter with
  | none => .error (.misuse .unknownArgument)
  | some flag => d.takeFlag flag

/-- Ends the reading.  Without a file name the default one is meant. -/
def finish (d : Draft) : Except Stop Arguments :=
  if d.file = some "" then .error (.misuse .invalidValue)
  else .ok ⟨d.file.getD "app.tilde", d.compact, d.tokens⟩

/-- Takes words of which none is a flag. -/
def takeFiles (d : Draft) : List String → Except Stop Draft
  | [] => .ok d
  | word :: more => do (← d.takeFile word).takeFiles more

/-- Takes words of which some are flags. -/
def takeWords (d : Draft) : List String → Except Stop Draft
  | [] => .ok d
  | word :: more =>
      match word.toList with
      | ['-', '-'] => d.takeFiles more
      | '-' :: '-' :: name => do (← d.takeLong name).takeWords more
      | '-' :: letter :: _ => do (← d.takeShort letter).takeWords more
      | _ => do (← d.takeFile word).takeWords more

end Draft

/-- Reads the words of a command line. -/
def Arguments.ofWords (words : List String) : Except Stop Arguments := do
  (← Draft.empty.takeWords words).finish

end TildeLang.CommandLine
