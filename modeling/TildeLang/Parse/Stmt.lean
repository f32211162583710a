import TildeLang.Parse.Expr

/-!
# Parsing statements

The grammar of statements:

    Statement  := 'if' '(' Assignment ')' Statement ('else' Statement)?
                | '{' Statement* '}'
                | ('let' | 'const') Declarator (',' Declarator)*
                | Assignment                      -- that begins with an identifier
    Declarator := Identifier ('=' Assignment)?

Statements have no terminator: each goes on for as long as it can.  An `else`
belongs to the nearest `if` that can take it.

As for expressions, the rules take the rules for their parts as arguments,
and `statement` ties the knot by recursion on the number of levels that may
still be opened.
-/

namespace TildeLang.Parse

/-- A conditional statement. -/
def ifStatement (expression : Parse Expr) (statement : Parse Stmt) : Parse Stmt := do
  let _ ← eat .ifWord .ifStatement
  let test ← parenthesized expression
  let consequent ← statement
  if (← peek) == some .elseWord then
    let _ ← eat .elseWord .ifStatement
    let alternate ← statement
    return .ifThenElse test consequent alternate
  else
    return .ifThen test consequent

/-- Statements between braces. -/
def block (statement : Parse Stmt) : Parse Stmt := do
  let _ ← eat .leftBrace .blockStatement
  let body ← collectWhile (· != .rightBrace) statement
  let _ ← eat .rightBrace .blockStatement
  return .block body

/-- A declared name, with the expression that it starts from, if any. -/
def declarator (expression : Parse Expr) : Parse Declarator := do
  let name ← identifier
  if (← peek) == some .assign then
    let _ ← eat .assign .variableInitializer
    let init ← expression
    return ⟨name, some init⟩
  else
    return ⟨name, none⟩

/-- A declaration of one or more names. -/
def declaration (expression : Parse Expr) (binding : Binding) : Parse Stmt := do
  let _ ← eat binding.kind .variableStatement
  let first ← declarator expression
  let more ← collectWhile (· == .comma) do
    let _ ← eat .comma .variableDeclarationList
    declarator expression
  return .declare binding (first :: more)

/-- Statements, with at most `levels` statements and expressions open at
once. -/
def statement : (levels : Nat) → Parse Stmt
  | 0 => do
      note fun c => .statement c.position
      tooDeep .statement
  | levels + 1 => do
      note fun c => .statement c.position
      within .statement do
        match ← peek with
        | some .ifWord => ifStatement (assignment levels) (statement levels)
        | some .leftBrace => block (statement levels)
        | some .letWord => declaration (assignment levels) .letBinding
        | some .constWord => declaration (assignment levels) .constBinding
        | some .identifier => return .expression (← assignment levels)
        | _ => fail .statement fun c => .unexpectedStatement c.kind?

/-- A whole program: statements up to the end of the input. -/
def program (levels : Nat) : Parse Program := do
  let body ← collectWhile (fun _ => true) (statement levels)
  return ⟨body⟩

/-- A single expression, after which nothing may follow. -/
def soleExpression (levels : Nat) : Parse Expr := do
  let e ← assignment levels
  match ← peek with
  | none => return e
  | some _ => fail .expression fun c => .trailingInput c.kind?

end TildeLang.Parse
