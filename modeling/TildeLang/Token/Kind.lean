/-!
# Kinds of token

Every piece of a Tilde source has a **kind**, and every kind belongs to a
**category**.  Two categories are trivia: white space and comments are read
and dropped, and no other piece is.
-/

namespace TildeLang

/-- The families into which the kinds of token fall. -/
inductive Category where
  | whitespace
  | comment
  | literal
  | operator
  | delimiter
  | keyword
  | declarator
  | identifier
deriving DecidableEq, Repr

namespace Category

/-- The name under which a category is printed. -/
def name : Category → String
  | whitespace => "Whitespace"
  | comment => "Comment"
  | literal => "Literal"
  | operator => "Operator"
  | delimiter => "Delimiter"
  | keyword => "Keyword"
  | declarator => "Declarator"
  | identifier => "Identifier"

/-- Trivia separate tokens and are never handed to a parser. -/
def isTrivia : Category → Bool
  | whitespace | comment => true
  | _ => false

end Category

/-- The kinds of token. -/
inductive Kind where
  | lineEnd
  | tab
  | whiteSpace
  | blockComment
  | lineComment
  | number
  | string
  | char
  | boolFalse
  | boolTrue
  | add
  | sub
  | multiply
  | divide
  | modulo
  | power
  | equal
  | greater
  | less
  | and
  | or
  | not
  | assign
  | assignType
  | dot
  | comma
  | leftBrace
  | rightBrace
  | leftParen
  | rightParen
  | ifWord
  | elseWord
  | shortIf
  | letWord
  | constWord
  | identifier
deriving DecidableEq, Repr

namespace Kind

/-- The name under which a kind is printed.  Braces and parentheses are
printed as themselves. -/
def name : Kind → String
  | lineEnd => "LineEnd"
  | tab => "Tab"
  | whiteSpace => "WhiteSpace"
  | blockComment => "BlockComment"
  | lineComment => "LineComment"
  | number => "Number"
  | string => "String"
  | char => "Char"
  | boolFalse => "BoolFalse"
  | boolTrue => "BoolTrue"
  | add => "Add"
  | sub => "Sub"
  | multiply => "Multiply"
  | divide => "Divide"
  | modulo => "Modulo"
  | power => "Power"
  | equal => "Equal"
  | greater => "Greater"
  | less => "Less"
  | and => "And"
  | or => "Or"
  | not => "Not"
  | assign => "Assign"
  | assignType => "AssignType"
  | dot => "Dot"
  | comma => "Comma"
  | leftBrace => "\x7b"
  | rightBrace => "\x7d"
  | leftParen => "("
  | rightParen => ")"
  | ifWord => "If"
  | elseWord => "Else"
  | shortIf => "ShortIf"
  | letWord => "Let"
  | constWord => "Const"
  | identifier => "Variable"

/-- The kinds that stand for a value. -/
def isLiteral : Kind → Bool
  | number | string | char | boolFalse | boolTrue => true
  | _ => false

/-- The one kind that ends a line. -/
def isLineEnd : Kind → Bool
  | lineEnd => true
  | _ => false

end Kind

end TildeLang
