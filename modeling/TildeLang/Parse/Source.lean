import TildeLang.Parse.Stmt

/-!
# Parsing a source

The entry points: a source is read as a program or as a single expression.
Each comes in two forms.  `Parser.parse` and `Parser.parseExpression` run on a
parser, which may have been used before, and give back the parser with the
history of the run.  `parse` and `parseExpression` start from an unused parser
and give only the answer.

The forms with `Within` take the number of levels that may be open at once;
the others allow `maxNesting`.
-/

namespace TildeLang

/-- How many statements and expressions may be open at once. -/
def maxNesting : Nat := 256

namespace Parser

/-- A parser at the front of a source, with nothing read ahead and no
history. -/
def ofText (source : String) : Parser :=
  ⟨⟨.ofText source, none, 0⟩, []⟩

/-- Puts a parser at the front of a source.  Whatever the parser has done
before, its stream, the token read ahead and its depth are set anew, and a new
history is begun. -/
def reset (p : Parser) (source : String) : Parser :=
  { p with stream := .ofText source, lookahead := none, depth := 0, history := [] }

/-- A parser that is put at the front of a source is like a new one. -/
theorem reset_eq (p : Parser) (source : String) : p.reset source = ofText source := rfl

/-- Puts a parser at the front of a source, and reads the first token ahead. -/
def restart (source : String) (events : List Event) : Parse Unit := fun p =>
  Parse.fetch events (p.reset source)

/-- Reads a source as a program. -/
def parseWithin (levels : Nat) (source : String) : Parse Program := do
  restart source [.began source.utf8ByteSize]
  let result ← Parse.program levels
  Parse.note fun _ => .finished result.body.length
  return result

/-- Reads a source as a single expression. -/
def parseExpressionWithin (levels : Nat) (source : String) : Parse Expr := do
  restart source []
  Parse.soleExpression levels

/-- Reads a source as a program. -/
def parse (p : Parser) (source : String) : Except Error Program × Parser :=
  parseWithin maxNesting source p

/-- Reads a source as a single expression. -/
def parseExpression (p : Parser) (source : String) : Except Error Expr × Parser :=
  parseExpressionWithin maxNesting source p

end Parser

/-- The program that a source is. -/
def parse (source : String) : Except Error Program :=
  (Parser.unset.parse source).1

/-- The single expression that a source is. -/
def parseExpression (source : String) : Except Error Expr :=
  (Parser.unset.parseExpression source).1

end TildeLang
