import TildeLang.Error

/-!
# Diagnostics

A **diagnostic** shows an error to the writer of a source: the message, the
file and the position, the line of the source on which the error stands, and
a caret below it.  Tabs before the caret are kept, so that it stands under the
same indentation as the line.
-/

namespace TildeLang.Diagnostic

/-- A text with blanks before it, up to a width. -/
def padLeft (width : Nat) (text : String) : String :=
  String.ofList (List.replicate (width - text.length) ' ') ++ text

/-- The line of a source with a number, counted from one.  A number past the
last line gives an empty line. -/
def sourceLine (source : String) (line : Nat) : List Char :=
  ((Text.lines source.toList)[line - 1]?).getD []

/-- The blanks and tabs below the characters before a column. -/
def indentation (line : List Char) (column : Nat) : List Char :=
  (line.take (column - 1)).map fun c => if c = '\t' then '\t' else ' '

/-- The text that shows an error of a source. -/
def render (file source : String) (e : Error) : String :=
  let line := sourceLine source e.position.line
  s!"error[{e.code}]: {e.message}\n" ++
  s!"  --> {file}:{e.position.line}:{e.position.column}\n" ++
  "   |\n" ++
  padLeft 3 (toString e.position.line) ++ " | " ++ String.ofList line ++ "\n" ++
  "    | " ++ String.ofList (indentation line e.position.column) ++ "^\n" ++
  match e.help with
  | some hint => s!"help: {hint}\n"
  | none => ""

end TildeLang.Diagnostic
