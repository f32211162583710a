import TildeLang.Parse.Basic
import TildeLang.Tree

/-!
# Parsing expressions

The grammar of expressions has four levels of binding strength:

    Assignment     := Identifier '=' Assignment | Additive
    Additive       := Multiplicative (('+' | '-') Multiplicative)*
    Multiplicative := Primary (('*' | '/') Primary)*
    Primary        := Literal | '(' Assignment ')' | Identifier

The operators of the two middle levels group to the left, and the assignment
groups to the right.  What stands before `=` must be an identifier without
parentheses.

Every rule but the first takes the rule for what may stand between
parentheses as an argument, and `assignment` ties the knot.  Its own argument
is the number of levels that may still be opened, so it recurses on that
number.
-/

namespace TildeLang.Parse

/-- An identifier. -/
def identifier : Parse String := do
  let t ← eat .identifier .identifier
  return t.raw

/-- A literal. -/
def literal : Parse Literal := do
  match (← peek).bind LiteralKind.ofToken? with
  | some kind =>
      let t ← eat kind.token .literal
      return ⟨kind, t.value⟩
  | none => fail .literal fun c => .unexpectedLiteral c.kind?

/-- An expression between parentheses. -/
def parenthesized (inner : Parse Expr) : Parse Expr := do
  let _ ← eat .leftParen .parenthesizedExpression
  let e ← inner
  let _ ← eat .rightParen .parenthesizedExpression
  return e

/-- The expressions that no operator can split. -/
def primary (inner : Parse Expr) : Parse Expr := do
  match ← peek with
  | some .leftParen => parenthesized inner
  | some .identifier => return .identifier (← identifier)
  | some kind =>
      if kind.isLiteral then return .literal (← literal)
      else fail .primaryExpression fun c => .unexpectedPrimary c.kind?
  | none => fail .primaryExpression fun c => .unexpectedPrimary c.kind?

/-- The operators that bind two products into a sum. -/
def additiveOp? : Kind → Option BinaryOp
  | .add => some .add
  | .sub => some .sub
  | _ => none

/-- The operators that bind two primary expressions into a product. -/
def multiplicativeOp? : Kind → Option BinaryOp
  | .multiply => some .multiply
  | .divide => some .divide
  | _ => none

/-- Adds operands to the right of an expression, `count` at most, for as long
as one of the operators is read ahead. -/
def operandsUpTo (rule : Rule) (op? : Kind → Option BinaryOp) (operand : Parse Expr) :
    (count : Nat) → Expr → Parse Expr
  | 0, left => pure left
  | count + 1, left => do
      match (← peek).bind op? with
      | some op =>
          let _ ← eat op.kind rule
          let right ← operand
          operandsUpTo rule op? operand count (.binary op left right)
      | none => return left

/-- Operands joined by operators of one strength, grouped to the left.  Every
operator uses a token, so the size of the cursor bounds their number. -/
def leftGrouped (rule : Rule) (op? : Kind → Option BinaryOp) (operand : Parse Expr) :
    Parse Expr := do
  let left ← operand
  fun p => operandsUpTo rule op? operand p.size left p

/-- Products and quotients. -/
def multiplicative (inner : Parse Expr) : Parse Expr :=
  leftGrouped .multiplicativeExpression multiplicativeOp? (primary inner)

/-- Sums and differences. -/
def additive (inner : Parse Expr) : Parse Expr :=
  leftGrouped .additiveExpression additiveOp? (multiplicative inner)

/-- The name that an expression gives to an assignment.  `bare` says that the
expression began with an identifier, so it is not one between parentheses. -/
def target (bare : Bool) : Expr → Parse String
  | .identifier name =>
      if bare then pure name
      else fail .assignmentExpression fun _ =>
        .invalidAssignmentTarget "ParenthesizedExpression"
  | e => fail .assignmentExpression fun _ => .invalidAssignmentTarget e.nodeName

/-- Expressions of every strength, with at most `levels` of them open at
once. -/
def assignment : (levels : Nat) → Parse Expr
  | 0 => tooDeep .assignmentExpression
  | levels + 1 => within .assignmentExpression do
      let bare := (← peek) == some .identifier
      let left ← additive (assignment levels)
      if (← peek) == some .assign then
        let name ← target bare left
        let _ ← eat .assign .assignmentExpression
        let value ← assignment levels
        return .assign name value
      else
        return left

end TildeLang.Parse
