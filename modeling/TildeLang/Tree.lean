import TildeLang.Token.Basic

/-!
# Syntax trees

The tree of a Tilde program: literals, expressions, declarators, statements
and the program itself.  Parentheses leave no node, since the shape of the
tree already says what they group.

Trees can be compared: `Stmt.same_iff` says that the recursive comparison of
two statements answers `true` exactly when they are equal.  A tree need not
come from a source, so a literal may have a kind and a value that do not agree.
-/

namespace TildeLang

/-- The operators with two operands. -/
inductive BinaryOp where
  | add
  | sub
  | multiply
  | divide
deriving DecidableEq, Repr

namespace BinaryOp

/-- The sign of an operator. -/
def symbol : BinaryOp → String
  | add => "+"
  | sub => "-"
  | multiply => "*"
  | divide => "/"

/-- The kind of the token that writes an operator. -/
def kind : BinaryOp → Kind
  | add => .add
  | sub => .sub
  | multiply => .multiply
  | divide => .divide

end BinaryOp

/-- The kinds of literal. -/
inductive LiteralKind where
  | number
  | string
  | char
  | boolTrue
  | boolFalse
deriving DecidableEq, Repr

namespace LiteralKind

/-- The kind of the token that writes a literal. -/
def token : LiteralKind → Kind
  | number => .number
  | string => .string
  | char => .char
  | boolTrue => .boolTrue
  | boolFalse => .boolFalse

/-- The kind of literal that a token of some kind writes, if it writes one. -/
def ofToken? : Kind → Option LiteralKind
  | .number => some number
  | .string => some string
  | .char => some char
  | .boolTrue => some boolTrue
  | .boolFalse => some boolFalse
  | _ => none

theorem ofToken?_eq_some_iff {kind : Kind} {k : LiteralKind} :
    ofToken? kind = some k ↔ k.token = kind := by
  constructor
  · intro h
    unfold ofToken? at h
    split at h <;> cases h <;> rfl
  · rintro rfl
    cases k <;> rfl

@[simp]
theorem ofToken?_token (k : LiteralKind) : ofToken? k.token = some k :=
  ofToken?_eq_some_iff.mpr rfl

theorem token_inj {k k' : LiteralKind} : k.token = k'.token ↔ k = k' := by
  rw [← ofToken?_eq_some_iff, ofToken?_token, Option.some.injEq, eq_comm]

@[simp]
theorem isLiteral_token (k : LiteralKind) : k.token.isLiteral = true := by
  cases k <;> rfl

/-- A token writes a literal exactly if its kind stands for a value. -/
theorem ofToken?_eq_none_iff {kind : Kind} : ofToken? kind = none ↔ kind.isLiteral = false := by
  cases kind <;> decide

end LiteralKind

/-- A value that is written out in the source, under a kind.  Nothing ties the
two together: that they agree is a fact about the literals of parsed trees. -/
structure Literal where
  kind : LiteralKind
  value : Value
deriving DecidableEq, Repr

namespace Literal

/-! The literals whose kind and value agree. -/

def number (n : UInt64) : Literal := ⟨.number, .number n⟩

def string (s : String) : Literal := ⟨.string, .text s⟩

def char (s : String) : Literal := ⟨.char, .text s⟩

def truth (b : Bool) : Literal := ⟨if b then .boolTrue else .boolFalse, .truth b⟩

end Literal

/-- Expressions. -/
inductive Expr where
  | literal (l : Literal)
  | identifier (name : String)
  | binary (op : BinaryOp) (left right : Expr)
  | assign (target : String) (value : Expr)
deriving DecidableEq, Repr

/-- The name of the node at the root of an expression. -/
def Expr.nodeName : Expr → String
  | literal _ => "Literal"
  | identifier _ => "Identifier"
  | binary .. => "BinaryExpression"
  | assign .. => "AssignmentExpression"

/-- One declared name, with the expression that it starts from, if any. -/
structure Declarator where
  name : String
  init : Option Expr
deriving DecidableEq, Repr

/-- The two ways to declare names. -/
inductive Binding where
  | letBinding
  | constBinding
deriving DecidableEq, Repr

/-- The kind of the token that opens a declaration. -/
def Binding.kind : Binding → Kind
  | letBinding => .letWord
  | constBinding => .constWord

/-- Statements. -/
inductive Stmt where
  | ifThen (test : Expr) (consequent : Stmt)
  | ifThenElse (test : Expr) (consequent alternate : Stmt)
  | block (body : List Stmt)
  | declare (binding : Binding) (declarators : List Declarator)
  | expression (e : Expr)
deriving Repr

/-- A whole program. -/
structure Program where
  body : List Stmt
deriving Repr

namespace Stmt

mutual

/-- Whether two statements are the same. -/
def same : Stmt → Stmt → Bool
  | ifThen t c, ifThen t' c' => t == t' && c.same c'
  | ifThenElse t c a, ifThenElse t' c' a' => t == t' && (c.same c' && a.same a')
  | block b, block b' => sameList b b'
  | declare k ds, declare k' ds' => k == k' && ds == ds'
  | expression e, expression e' => e == e'
  | _, _ => false

/-- Whether two lists of statements are the same. -/
def sameList : List Stmt → List Stmt → Bool
  | [], [] => true
  | s :: rest, s' :: rest' => s.same s' && sameList rest rest'
  | _, _ => false

end

mutual

/-- The comparison of statements answers `true` exactly for equal ones. -/
theorem same_iff : ∀ a b : Stmt, a.same b = true ↔ a = b
  | ifThen t c, b => by
      cases b <;> simp [same, same_iff c]
  | ifThenElse t c a, b => by
      cases b <;> simp [same, same_iff c, same_iff a]
  | block body, b => by
      cases b <;> simp [same, sameList_iff body]
  | declare k ds, b => by
      cases b <;> simp [same]
  | expression e, b => by
      cases b <;> simp [same]

/-- The comparison of lists of statements answers `true` exactly for equal
ones. -/
theorem sameList_iff : ∀ a b : List Stmt, sameList a b = true ↔ a = b
  | [], b => by
      cases b <;> simp [sameList]
  | s :: rest, b => by
      cases b <;> simp [sameList, same_iff s, sameList_iff rest]

end

instance : DecidableEq Stmt := fun a b =>
  decidable_of_iff _ (same_iff a b)

end Stmt

instance : DecidableEq Program := fun a b =>
  decidable_of_iff (a.body = b.body) ⟨fun h => by cases a; cases b; exact congrArg _ h,
    fun h => congrArg _ h⟩

end TildeLang
