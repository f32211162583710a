import TildeLang.Proofs.Grammar
import TildeLang.Proofs.Lexicon

/-!
# The parts of a tree

The **leaves** of a tree are its names, its literals and its operators, in the
order in which they are written.  Its **statements** are those at the top and
all that stand inside others.

With these two lists it can be said what it is for a tree to be **well
formed**.  Every tree that the parser answers with is, and every tree that is
can be printed.

* `Stmt.induction` — a property that goes from the parts of a statement to the
  statement holds of all statements;
* `Program.Regular`, `Program.WellFormed` — what is asked of a tree.
-/

namespace TildeLang

/-- To prove a property of all statements, it may be assumed of the statements
directly inside. -/
@[elab_as_elim, induction_eliminator]
theorem Stmt.induction {motive : Stmt → Prop}
    (ifThen : ∀ test consequent, motive consequent → motive (.ifThen test consequent))
    (ifThenElse : ∀ test consequent alternate, motive consequent → motive alternate →
      motive (.ifThenElse test consequent alternate))
    (block : ∀ body, (∀ s ∈ body, motive s) → motive (.block body))
    (declare : ∀ binding declarators, motive (.declare binding declarators))
    (expression : ∀ e, motive (.expression e)) (s : Stmt) : motive s := by
  refine @Stmt.rec motive (fun body => ∀ s ∈ body, motive s) ifThen ifThenElse block declare
    expression ?_ ?_ s
  · intro s hs
    cases hs
  · intro first rest hfirst hrest s hs
    rcases List.mem_cons.mp hs with rfl | hs
    · exact hfirst
    · exact hrest s hs

/-- One piece of a tree that is written as one token and is no mere sign. -/
inductive Leaf where
  | name (text : String)
  | literal (l : Literal)
  | op (sign : BinaryOp)
deriving DecidableEq

/-- Whether a leaf is written with a slash. -/
def Leaf.bearsSlash : Leaf → Bool
  | name _ => false
  | literal l => l.bearsSlash
  | .op sign => sign == .divide

/-- The leaves of an expression, in the order in which they are written. -/
def Expr.leaves : Expr → List Leaf
  | literal l => [.literal l]
  | identifier name => [.name name]
  | binary op left right => left.leaves ++ .op op :: right.leaves
  | assign target value => .name target :: value.leaves

/-- The leaves of a declarator. -/
def Declarator.leaves (d : Declarator) : List Leaf :=
  .name d.name :: (d.init.map Expr.leaves).getD []

mutual

/-- The leaves of a statement, in the order in which they are written. -/
def Stmt.leaves : Stmt → List Leaf
  | ifThen test consequent => test.leaves ++ consequent.leaves
  | ifThenElse test consequent alternate =>
      test.leaves ++ (consequent.leaves ++ alternate.leaves)
  | block body => leavesAll body
  | declare _ declarators => declarators.flatMap Declarator.leaves
  | expression e => e.leaves

/-- The leaves of statements one after another. -/
def Stmt.leavesAll : List Stmt → List Leaf
  | [] => []
  | s :: rest => s.leaves ++ leavesAll rest

end

mutual

/-- A statement and all statements inside it. -/
def Stmt.statements : Stmt → List Stmt
  | ifThen test consequent => ifThen test consequent :: consequent.statements
  | ifThenElse test consequent alternate =>
      ifThenElse test consequent alternate :: (consequent.statements ++ alternate.statements)
  | block body => block body :: statementsAll body
  | declare binding declarators => [declare binding declarators]
  | expression e => [expression e]

/-- Statements, and all statements inside them. -/
def Stmt.statementsAll : List Stmt → List Stmt
  | [] => []
  | s :: rest => s.statements ++ statementsAll rest

end

/-- The leaves of a program. -/
def Program.leaves (program : Program) : List Leaf := Stmt.leavesAll program.body

/-- All statements of a program. -/
def Program.statements (program : Program) : List Stmt := Stmt.statementsAll program.body

theorem Stmt.leavesAll_eq (body : List Stmt) : leavesAll body = body.flatMap leaves := by
  induction body with
  | nil => rfl
  | cons s rest ih => rw [leavesAll, ih, List.flatMap_cons]

theorem Stmt.statementsAll_eq (body : List Stmt) :
    statementsAll body = body.flatMap statements := by
  induction body with
  | nil => rfl
  | cons s rest ih => rw [statementsAll, ih, List.flatMap_cons]

/-- How strongly an operator binds its operands. -/
def BinaryOp.strength : BinaryOp → Nat
  | add => 1
  | sub => 1
  | multiply => 2
  | divide => 2

/-- How strongly an expression holds together.  An operand that is weaker than
its operator needs parentheses, and so does a right operand that is no
stronger. -/
def Expr.strength : Expr → Nat
  | literal _ => 3
  | identifier _ => 3
  | binary op _ _ => op.strength
  | assign _ _ => 0

/-- Whether going down from an expression, always to the left, ends at a name
and meets no operand that needs parentheses. -/
def Expr.leadsWithName : Expr → Bool
  | literal _ => false
  | identifier _ => true
  | binary op left _ => op.strength ≤ left.strength && left.leadsWithName
  | assign _ _ => true

/-- What is asked of a statement by itself: an `else` belongs to the nearest
`if`, a declaration declares something, and an expression leads with a name. -/
def Stmt.WellMade : Stmt → Prop
  | ifThen _ _ => True
  | ifThenElse _ consequent _ => consequent.isOpen = false
  | block _ => True
  | declare _ declarators => declarators ≠ []
  | expression e => e.leadsWithName = true

/-- What is asked of a tree, the beginnings of its expression statements
apart. -/
structure Program.Regular (program : Program) : Prop where
  /-- Whatever is used as a name is one. -/
  names : ∀ name, Leaf.name name ∈ program.leaves → IsName name.toList
  /-- Kinds and values agree, and no quoted text holds its own quote. -/
  literals : ∀ l, Leaf.literal l ∈ program.leaves → l.Fits
  /-- A declaration declares something. -/
  declares : ∀ binding declarators, Stmt.declare binding declarators ∈ program.statements →
    declarators ≠ []
  /-- An `else` belongs to the nearest `if` that can take it. -/
  closed : ∀ test consequent alternate,
    Stmt.ifThenElse test consequent alternate ∈ program.statements → consequent.isOpen = false
  /-- No slash is written after a sign for division. -/
  slashes : program.leaves.Pairwise fun leaf later =>
    leaf = .op .divide → later.bearsSlash = false

/-- What is asked of a tree. -/
structure Program.WellFormed (program : Program) : Prop extends program.Regular where
  /-- An expression that is a statement begins with a name. -/
  begins : ∀ e, Stmt.expression e ∈ program.statements → e.leadsWithName = true

end TildeLang
