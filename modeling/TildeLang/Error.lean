import TildeLang.Text.Position
import TildeLang.Text.Escape
import TildeLang.Token.Kind

/-!
# Errors

A source is refused for one of two reasons.  A **lexical error** says that no
token can be read at some place; a **grammar error** says that a rule of the
grammar cannot go on with the token it meets.  Both keep their cause as data
and their position; the wording is in `Error.message`, and a hint for the
writer of the source, where there is one, in `Error.help`.
-/

namespace TildeLang

/-- Why no token can be read. -/
inductive LexCause where
  /-- No row of the token table takes anything. -/
  | unexpectedCharacter (c : Char)
  /-- A number has no place among the 64-bit words. -/
  | numberOutOfRange (lexeme : String)
deriving DecidableEq, Repr

/-- A lexical error, with its byte offset and its position. -/
structure LexError where
  cause : LexCause
  offset : Nat
  position : Position
deriving DecidableEq, Repr

/-- The rules of the grammar, as errors name them. -/
inductive Rule where
  | statement
  | ifStatement
  | blockStatement
  | variableStatement
  | variableDeclarationList
  | variableInitializer
  | expression
  | assignmentExpression
  | additiveExpression
  | multiplicativeExpression
  | primaryExpression
  | parenthesizedExpression
  | literal
  | identifier
deriving DecidableEq, Repr

/-- Why a rule cannot go on.  A `found` token of `none` is the end of the
input. -/
inductive ParseCause where
  /-- Another kind of token is needed here. -/
  | unexpectedToken (expected : Kind) (found : Option Kind)
  /-- No statement starts with this token. -/
  | unexpectedStatement (found : Option Kind)
  /-- The token is no literal. -/
  | unexpectedLiteral (found : Option Kind)
  /-- No primary expression starts with this token. -/
  | unexpectedPrimary (found : Option Kind)
  /-- Something other than a bare identifier stands before `=`. -/
  | invalidAssignmentTarget (found : String)
  /-- An expression is complete, but the input goes on. -/
  | trailingInput (found : Option Kind)
  /-- Too many statements and expressions are open at once. -/
  | nestingTooDeep (limit : Nat)
deriving DecidableEq, Repr

/-- A grammar error: the rule that failed, why, and where. -/
structure ParseError where
  rule : Rule
  cause : ParseCause
  position : Position
deriving DecidableEq, Repr

/-- Any reason to refuse a source. -/
inductive Error where
  | lexical (e : LexError)
  | grammar (e : ParseError)
deriving DecidableEq, Repr

namespace LexCause

/-- The wording of a lexical cause. -/
def message : LexCause → String
  | unexpectedCharacter c => s!"Unexpected character '{Text.escapeChar c}'"
  | numberOutOfRange lexeme => s!"Number literal {lexeme} is out of range"

end LexCause

/-- The end of every message: where the error is. -/
def Position.sentence (p : Position) : String :=
  s!". Line {p.line} column {p.column}."

namespace LexError

/-- The wording of a lexical error. -/
def message (e : LexError) : String :=
  e.cause.message ++ e.position.sentence

/-- The character at which reading stopped.  A number that is out of range
stops at its first digit. -/
def character (e : LexError) : Char :=
  match e.cause with
  | .unexpectedCharacter c => c
  | .numberOutOfRange lexeme => lexeme.toList.headD '0'

/-- A small letter that is refused is an identifier of one character. -/
def help (e : LexError) : Option String :=
  match e.cause with
  | .unexpectedCharacter c =>
      if c.isLower then some "identifiers need at least two characters from [a-z_]" else none
  | .numberOutOfRange _ => some "number literals must fit in an unsigned 64-bit integer"

end LexError

namespace Rule

/-- The name under which a rule is printed. -/
def name : Rule → String
  | statement => "Statement"
  | ifStatement => "IfStatement"
  | blockStatement => "BlockStatement"
  | variableStatement => "VariableStatement"
  | variableDeclarationList => "VariableDeclarationList"
  | variableInitializer => "VariableInitializer"
  | expression => "Expression"
  | assignmentExpression => "AssignmentExpression"
  | additiveExpression => "AdditiveExpression"
  | multiplicativeExpression => "MultiplicativeExpression"
  | primaryExpression => "PrimaryExpression"
  | parenthesizedExpression => "ParenthesizedExpression"
  | literal => "Literal"
  | identifier => "Identifier"

end Rule

namespace ParseCause

/-- How a message names what a rule met: a kind of token, or the end of the
input. -/
def describeFound : Option Kind → String
  | some kind => kind.name
  | none => "end of input"

/-- The wording of a grammar cause. -/
def message : ParseCause → String
  | unexpectedToken expected found =>
      s!"Unexpected token kind {describeFound found}, expected {expected.name}"
  | unexpectedStatement found => s!"Unexpected token {describeFound found}"
  | unexpectedLiteral found => s!"Unexpected literal token {describeFound found}"
  | unexpectedPrimary found =>
      "Expected any valid primary expression, received unexpected token " ++ describeFound found
  | invalidAssignmentTarget found =>
      s!"Invalid left-hand side in assignment expression: expected Identifier, got {found}"
  | trailingInput found => s!"Unexpected token {describeFound found}, expected end of input"
  | nestingTooDeep limit => s!"Nesting exceeds the maximum depth of {limit}"

end ParseCause

namespace ParseError

/-- The wording of a grammar error. -/
def message (e : ParseError) : String :=
  e.cause.message ++ e.position.sentence ++ s!" (in {e.rule.name})"

/-- What to do about a grammar error. -/
def help (e : ParseError) : Option String :=
  match e.cause with
  | .unexpectedStatement _ =>
      some "statements start with `if`, `\x7b`, `let`, `const` or an identifier"
  | .invalidAssignmentTarget _ => some "only a bare identifier can appear on the left of `=`"
  | .nestingTooDeep _ =>
      some "split deeply nested blocks or parentheses into separate statements"
  | _ => none

end ParseError

namespace Error

/-- The code that tells the two sorts of error apart. -/
def code : Error → String
  | lexical _ => "E_LEX"
  | grammar _ => "E_PARSE"

/-- Where the error is. -/
def position : Error → Position
  | lexical e => e.position
  | grammar e => e.position

/-- The wording of an error. -/
def message : Error → String
  | lexical e => e.message
  | grammar e => e.message

/-- A hint for the writer of the source, where there is one. -/
def help : Error → Option String
  | lexical e => e.help
  | grammar e => e.help

end Error

end TildeLang
