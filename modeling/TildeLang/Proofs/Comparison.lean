import TildeLang.Proofs.ReadingRules

/-!
# Comparing rules

Much of what can be said of the rules is said in one way: it holds of the
steps from which the rules are made, and it goes from the parts of a rule to
the rule.  A **comparison** is such a statement about the runs of two rules
from one parser.  A statement about the runs of one rule is a comparison that
looks at the second rule only.  A **quiet** comparison says nothing of noting
that a statement is begun, and that is enough for expressions.

Every comparison goes through the rules of the grammar.  A rule for
expressions is run only after a token has been used, or after a statement has
been begun; so it is enough to compare the rules for the parts where less is
left to read.

* `assignmentLevel`, `statementLevel` — what the two rules that open levels do
  inside a level;
* `QuietComparison.assignmentLevel`, `QuietComparison.statementLevel` — comparing
  what is done inside a level;
* `QuietComparison.expressions`, `compare_statement` — comparing rules that may
  open different numbers of levels;
* `Rules` — a rule for expressions and a rule for statements, and what is read
  with them.
-/

namespace TildeLang

namespace Parse

/-- What is done inside the level of an expression. -/
def assignmentLevel (inner : Parse Expr) : Parse Expr := do
  let bare := (← peek) == some .identifier
  let left ← additive inner
  if (← peek) == some .assign then
    let name ← target bare left
    let _ ← eat .assign .assignmentExpression
    let value ← inner
    return .assign name value
  else
    return left

theorem assignment_succ (n : Nat) :
    assignment (n + 1) = within .assignmentExpression (assignmentLevel (assignment n)) := rfl

/-- What is done inside the level of a statement. -/
def statementLevel (expression : Parse Expr) (statement : Parse Stmt) : Parse Stmt := do
  match ← peek with
  | some .ifWord => ifStatement expression statement
  | some .leftBrace => block statement
  | some .letWord => declaration expression .letBinding
  | some .constWord => declaration expression .constBinding
  | some .identifier => return .expression (← expression)
  | _ => fail .statement fun c => .unexpectedStatement c.kind?

theorem statement_succ (n : Nat) :
    statement (n + 1) = (do
      note fun c => .statement c.position
      within .statement (statementLevel (assignment n) (statement n))) := rfl

/-- What a declared name starts from. -/
def initializer (expression : Parse Expr) : Parse Expr := do
  let _ ← eat .assign .variableInitializer
  expression

/-- Declared names, with commas between them. -/
def declarators (expression : Parse Expr) : Parse (List Declarator) := do
  let first ← declarator expression
  let more ← collectWhile (· == .comma) do
    let _ ← eat .comma .variableDeclarationList
    declarator expression
  return first :: more

theorem bind_assoc {α β γ : Type} (rule : Parse α) (next : α → Parse β) (last : β → Parse γ)
    (p : Parser) : ((rule >>= next) >>= last) p = (rule >>= fun a => next a >>= last) p := by
  change Parse.bind (Parse.bind rule next) last p
    = Parse.bind rule (fun a => Parse.bind (next a) last) p
  unfold Parse.bind
  rcases rule p with ⟨answer, q⟩
  cases answer with
  | ok a => rfl
  | error e => rfl

/-- A declarator is a name and what it starts from. -/
theorem declarator_eq (expression : Parse Expr) (p : Parser) :
    declarator expression p = (do
      let name ← identifier
      if (← peek) == some .assign then
        let init ← initializer expression
        return ⟨name, some init⟩
      else
        return ⟨name, none⟩ : Parse Declarator) p := by
  refine bind_congr fun name q _ => bind_congr fun kind r _ => ?_
  split
  · exact (bind_assoc _ _ _ r).symm
  · rfl

/-- A declaration is a word and the names that it declares. -/
theorem declaration_eq (expression : Parse Expr) (binding : Binding) (p : Parser) :
    declaration expression binding p = (do
      let _ ← eat binding.kind .variableStatement
      let names ← declarators expression
      return .declare binding names : Parse Stmt) p := by
  refine bind_congr fun _ q _ => ((bind_assoc _ _ _ q).trans ?_).symm
  exact bind_congr fun first r _ => bind_assoc _ _ _ r

theorem within_apply {α : Type} (rule : Rule) (body : Parse α) (p : Parser) :
    within rule body p
      = ((body (p.entering rule)).1, (body (p.entering rule)).2.leaving rule) := rfl

/-- The two rules that open levels. -/
structure Rules where
  expression : Parse Expr
  statement : Parse Stmt

namespace Rules

/-- The rules that may open so many levels. -/
def limited (n : Nat) : Rules := ⟨assignment n, Parse.statement n⟩

/-- A whole program, read with some rules. -/
def program (rules : Rules) : Parse Program := do
  let body ← collectWhile (fun _ => true) rules.statement
  return ⟨body⟩

/-- A single expression, read with some rules. -/
def soleExpression (rules : Rules) : Parse Expr := do
  let e ← rules.expression
  match ← peek with
  | none => return e
  | some _ => fail .expression fun c => .trailingInput c.kind?

end Rules

theorem size_statement_le {n : Nat} {p p' : Parser} {s : Stmt}
    (h : statement n p = (.ok s, p')) : p'.size ≤ p.size :=
  size_le_of_reads (statement_reads n p) h

end Parse

/-- The names by which an error tells what stands before `=`, where no bare
identifier does. -/
def targetNames : List String :=
  ["Literal", "BinaryExpression", "AssignmentExpression", "ParenthesizedExpression"]

/-- The causes that the rules give: they tell of a target by one of the names. -/
def ParseCause.Given : ParseCause → Prop
  | invalidAssignmentTarget found => found ∈ targetNames
  | _ => True

/-- A statement about the runs of two rules from one parser that holds of the
steps that note nothing, and goes from the parts of a rule to the rule. -/
structure QuietComparison where
  Holds {α : Type} (p : Parser) (rule rule' : Parse α) : Prop
  congr {α : Type} {p : Parser} {rule rule' other other' : Parse α} :
    Holds p other other' → rule p = other p → rule' p = other' p → Holds p rule rule'
  pure {α : Type} (p : Parser) (a : α) : Holds p (pure a : Parse α) (pure a)
  eat (p : Parser) (kind : Kind) (rule : Rule) :
    Holds p (Parse.eat kind rule) (Parse.eat kind rule)
  fail {α : Type} (p : Parser) (rule : Rule) (cause : Cursor → ParseCause) :
    (∀ c, (cause c).Given) →
      Holds p (Parse.fail rule cause : Parse α) (Parse.fail rule cause)
  bind {α β : Type} {p : Parser} {rule rule' : Parse α} {next next' : α → Parse β} :
    Holds p rule rule' → (∀ a p', rule' p = (.ok a, p') → Holds p' (next a) (next' a)) →
      Holds p (rule >>= next) (rule' >>= next')

/-- A comparison that holds of all steps of the rules: also of noting that a
statement is begun, which no rule for expressions does. -/
structure Comparison extends QuietComparison where
  note (p : Parser) :
    Holds p (Parse.note fun c => .statement c.position) (Parse.note fun c => .statement c.position)

namespace QuietComparison

open Parse

variable (R : QuietComparison) {α β : Type} {p : Parser}

theorem peek_bind {next next' : Option Kind → Parse β}
    (h : R.Holds p (next p.kind?) (next' p.kind?)) :
    R.Holds p (peek >>= next) (peek >>= next') :=
  R.congr h rfl rfl

/-- A token and then another rule, for which less is left to read. -/
theorem eat_bind {kind : Kind} {rule : Rule} {next next' : Token → Parse β}
    (h : ∀ t q, q.size < p.size → R.Holds q (next t) (next' t)) :
    R.Holds p (Parse.eat kind rule >>= next) (Parse.eat kind rule >>= next') :=
  R.bind (R.eat p kind rule) fun t q heat => h t q (size_eat_lt heat)

/-! ### Loops -/

section Loops

variable {accepts : Kind → Bool} {rule rule' : Parse α}

theorem collectUpTo (hkeeps : ∀ q a q', rule' q = (.ok a, q') → q'.size ≤ q.size)
    (hrule : ∀ q, q.size ≤ p.size → R.Holds q rule rule') (count : Nat) :
    R.Holds p (Parse.collectUpTo accepts rule count) (Parse.collectUpTo accepts rule' count) := by
  induction count generalizing p with
  | zero => exact R.pure p []
  | succ count ih =>
      refine R.peek_bind ?_
      split
      · refine R.bind (hrule p (Nat.le_refl _)) fun a p' hrun => ?_
        have hle := hkeeps p a p' hrun
        exact R.bind (ih fun q hq => hrule q (by omega)) fun more p'' _ => R.pure p'' _
      · exact R.pure p []

theorem collectWhile (hkeeps : ∀ q a q', rule' q = (.ok a, q') → q'.size ≤ q.size)
    (hrule : ∀ q, q.size ≤ p.size → R.Holds q rule rule') :
    R.Holds p (Parse.collectWhile accepts rule) (Parse.collectWhile accepts rule') :=
  R.congr (R.collectUpTo hkeeps hrule p.size) rfl rfl

end Loops

section Operands

variable {rule : Rule} {op? : Kind → Option BinaryOp} {operand operand' : Parse Expr}

theorem operandsUpTo (hkeeps : ∀ q a q', operand' q = (.ok a, q') → q'.size ≤ q.size)
    (hoperand : ∀ q, q.size ≤ p.size → R.Holds q operand operand') (count : Nat) (left : Expr) :
    R.Holds p (Parse.operandsUpTo rule op? operand count left)
      (Parse.operandsUpTo rule op? operand' count left) := by
  induction count generalizing p left with
  | zero => exact R.pure p left
  | succ count ih =>
      refine R.peek_bind ?_
      cases p.kind?.bind op? with
      | none => exact R.pure p left
      | some op =>
          refine R.eat_bind fun _ q hlt => ?_
          refine R.bind (hoperand q (by omega)) fun right q' hrun => ?_
          have hle := hkeeps q right q' hrun
          exact ih (fun r hr => hoperand r (by omega)) _

theorem leftGrouped (hkeeps : ∀ q a q', operand' q = (.ok a, q') → q'.size ≤ q.size)
    (hoperand : ∀ q, q.size ≤ p.size → R.Holds q operand operand') :
    R.Holds p (Parse.leftGrouped rule op? operand) (Parse.leftGrouped rule op? operand') := by
  refine R.bind (hoperand p (Nat.le_refl _)) fun left p' hrun => ?_
  have hle := hkeeps p left p' hrun
  have hoperand' : ∀ q, q.size ≤ p'.size → R.Holds q operand operand' :=
    fun q hq => hoperand q (by omega)
  exact R.congr (R.operandsUpTo hkeeps hoperand' p'.size left) rfl rfl

end Operands

/-! ### Expressions -/

theorem identifier : R.Holds p Parse.identifier Parse.identifier :=
  R.eat_bind fun t q _ => R.pure q t.raw

theorem literal : R.Holds p Parse.literal Parse.literal := by
  refine R.peek_bind ?_
  split
  · exact R.eat_bind fun t q _ => R.pure q _
  · exact R.fail p _ _ fun _ => trivial

theorem target (bare : Bool) (e : Expr) :
    R.Holds p (Parse.target bare e) (Parse.target bare e) := by
  have hfail : ∀ found ∈ targetNames, R.Holds p
      (Parse.fail .assignmentExpression fun _ => .invalidAssignmentTarget found : Parse String)
      (Parse.fail .assignmentExpression fun _ => .invalidAssignmentTarget found) :=
    fun found hfound => R.fail p _ _ fun _ => hfound
  cases e with
  | identifier name =>
      cases bare with
      | true => exact R.pure p name
      | false => exact hfail _ (by decide)
  | literal l => exact hfail "Literal" (by decide)
  | binary op left right => exact hfail "BinaryExpression" (by decide)
  | assign name value => exact hfail "AssignmentExpression" (by decide)

section Expressions

variable {inner : Parse Expr} {m : Nat}

theorem parenthesized (hinner : ∀ q, q.size < p.size → R.Holds q inner (assignment m)) :
    R.Holds p (Parse.parenthesized inner) (Parse.parenthesized (assignment m)) := by
  refine R.eat_bind fun _ q hlt => ?_
  refine R.bind (hinner q hlt) fun e q' _ => ?_
  exact R.eat_bind fun _ r _ => R.pure r e

theorem primary (hinner : ∀ q, q.size < p.size → R.Holds q inner (assignment m)) :
    R.Holds p (Parse.primary inner) (Parse.primary (assignment m)) := by
  refine R.peek_bind ?_
  split
  · exact R.parenthesized hinner
  · exact R.bind R.identifier fun name q _ => R.pure q _
  · split
    · exact R.bind R.literal fun l q _ => R.pure q _
    · exact R.fail p _ _ fun _ => trivial
  · exact R.fail p _ _ fun _ => trivial

theorem multiplicative (hinner : ∀ q, q.size < p.size → R.Holds q inner (assignment m)) :
    R.Holds p (Parse.multiplicative inner) (Parse.multiplicative (assignment m)) := by
  refine R.leftGrouped ?_ ?_
  · intro q e q' hrun
    exact size_le_of_reads (primary_reads (assignment_reads m)) hrun
  · exact fun q hle => R.primary fun r hlt => hinner r (by omega)

theorem additive (hinner : ∀ q, q.size < p.size → R.Holds q inner (assignment m)) :
    R.Holds p (Parse.additive inner) (Parse.additive (assignment m)) := by
  refine R.leftGrouped ?_ ?_
  · intro q e q' hrun
    exact size_le_of_reads (multiplicative_reads (assignment_reads m) q) hrun
  · exact fun q hle => R.multiplicative fun r hlt => hinner r (by omega)

/-- **Inside the level of an expression**, expressions are read only after a
token. -/
theorem assignmentLevel (hinner : ∀ q, q.size < p.size → R.Holds q inner (assignment m)) :
    R.Holds p (Parse.assignmentLevel inner) (Parse.assignmentLevel (assignment m)) := by
  refine R.peek_bind (R.bind (R.additive hinner) fun left q hrun => R.peek_bind ?_)
  have hle := size_le_of_reads (additive_reads (assignment_reads m) p) hrun
  split
  · rename_i hequals
    refine R.bind (R.target _ left) fun name q' htarget => ?_
    -- The target is checked without using a token.
    obtain rfl : q' = q := ((target_leads (by simpa using hequals)).of_ok htarget).1
    refine R.eat_bind fun _ r hlt => ?_
    exact R.bind (hinner r (by omega)) fun value r' _ => R.pure r' _
  · exact R.pure q left

end Expressions

/-! ### Statements -/

section Statements

variable {expression : Parse Expr} {statement : Parse Stmt} {m : Nat}

theorem initializer (hexpression : ∀ q, q.size < p.size → R.Holds q expression (assignment m)) :
    R.Holds p (Parse.initializer expression) (Parse.initializer (assignment m)) :=
  R.eat_bind fun _ q hlt => hexpression q hlt

theorem declarator (hexpression : ∀ q, q.size < p.size → R.Holds q expression (assignment m)) :
    R.Holds p (Parse.declarator expression) (Parse.declarator (assignment m)) := by
  refine R.congr ?_ (declarator_eq _ p) (declarator_eq _ p)
  refine R.bind R.identifier fun name q hrun => R.peek_bind ?_
  have hle : q.size ≤ p.size := size_le_of_reads (n := 0) identifier_reads hrun
  split
  · refine R.bind (R.initializer fun r hr => hexpression r (by omega)) ?_
    exact fun init r _ => R.pure r _
  · exact R.pure q _

theorem declarators (hexpression : ∀ q, q.size < p.size → R.Holds q expression (assignment m)) :
    R.Holds p (Parse.declarators expression) (Parse.declarators (assignment m)) := by
  refine R.bind (R.declarator hexpression) fun first q hrun => ?_
  have hle := size_le_of_reads (declarator_reads m p) hrun
  refine R.bind (R.collectWhile ?_ ?_) fun more r _ => R.pure r _
  · intro r d r' hround
    exact size_le_of_reads (nextDeclarator_reads m r) hround
  · exact fun r hr => R.eat_bind fun _ r' hr' => R.declarator fun _ _ => hexpression _ (by omega)

theorem declaration (binding : Binding)
    (hexpression : ∀ q, q.size < p.size → R.Holds q expression (assignment m)) :
    R.Holds p (Parse.declaration expression binding)
      (Parse.declaration (assignment m) binding) := by
  refine R.congr ?_ (declaration_eq _ binding p) (declaration_eq _ binding p)
  refine R.eat_bind fun _ q hlt => ?_
  exact R.bind (R.declarators fun r hr => hexpression r (by omega)) fun names r _ => R.pure r _

theorem block (hstatement : ∀ q, q.size < p.size → R.Holds q statement (Parse.statement m)) :
    R.Holds p (Parse.block statement) (Parse.block (Parse.statement m)) := by
  refine R.eat_bind fun _ q hlt => ?_
  refine R.bind (R.collectWhile (fun _ _ _ => size_statement_le) ?_) fun body q' _ => ?_
  · exact fun r hr => hstatement r (by omega)
  · exact R.eat_bind fun _ r _ => R.pure r _

theorem ifStatement (hexpression : ∀ q, q.size < p.size → R.Holds q expression (assignment m))
    (hstatement : ∀ q, q.size < p.size → R.Holds q statement (Parse.statement m)) :
    R.Holds p (Parse.ifStatement expression statement)
      (Parse.ifStatement (assignment m) (Parse.statement m)) := by
  refine R.eat_bind fun _ p₁ h₁ => ?_
  refine R.bind (R.parenthesized fun q hq => hexpression q (by omega)) fun test p₂ hrun => ?_
  have h₂ := size_le_of_reads (parenthesized_reads (assignment_reads m)) hrun
  refine R.bind (hstatement p₂ (by omega)) fun consequent p₃ hrun => R.peek_bind ?_
  have h₃ := size_statement_le hrun
  split
  · refine R.eat_bind fun _ p₄ h₄ => ?_
    exact R.bind (hstatement p₄ (by omega)) fun alternate p₅ _ => R.pure p₅ _
  · exact R.pure p₃ _

/-- **Inside the level of a statement**, statements are read only after a
token.  An expression may come first of all. -/
theorem statementLevel (hexpression : ∀ q, q.size ≤ p.size → R.Holds q expression (assignment m))
    (hstatement : ∀ q, q.size < p.size → R.Holds q statement (Parse.statement m)) :
    R.Holds p (Parse.statementLevel expression statement)
      (Parse.statementLevel (assignment m) (Parse.statement m)) := by
  have hlater : ∀ q, q.size < p.size → R.Holds q expression (assignment m) :=
    fun q hq => hexpression q (Nat.le_of_lt hq)
  refine R.peek_bind ?_
  split
  · exact R.ifStatement hlater hstatement
  · exact R.block hstatement
  · exact R.declaration _ hlater
  · exact R.declaration _ hlater
  · exact R.bind (hexpression p (Nat.le_refl _)) fun e q _ => R.pure q _
  · exact R.fail p _ _ fun _ => trivial

end Statements

/-! ### Sources -/

section Sources

variable (rules : Rules) {m : Nat}

theorem program (h : ∀ q, q.size ≤ p.size → R.Holds q rules.statement (Parse.statement m)) :
    R.Holds p rules.program (Rules.limited m).program :=
  R.bind (R.collectWhile (fun _ _ _ => size_statement_le) h) fun _ q _ => R.pure q _

theorem soleExpression (h : R.Holds p rules.expression (assignment m)) :
    R.Holds p rules.soleExpression (Rules.limited m).soleExpression := by
  refine R.bind h fun e q _ => R.peek_bind ?_
  split
  · exact R.pure q e
  · exact R.fail q _ _ fun _ => trivial

end Sources

end QuietComparison

/-! ### Levels -/

section Levels

open Parse

/-- **Expressions.**  A comparison that goes into a level compares the rules
that may open any number of levels. -/
theorem QuietComparison.expressions (R : Nat → QuietComparison) {k : Nat}
    (hwithin : ∀ (n : Nat) (p : Parser) (body body' : Parse Expr),
      (R n).Holds (p.entering .assignmentExpression) body body' →
        (R (n + 1)).Holds p (within .assignmentExpression body)
          (within .assignmentExpression body'))
    (hassignment : ∀ p, (R 0).Holds p (assignment 0) (assignment k)) (n : Nat) (p : Parser) :
    (R n).Holds p (assignment n) (assignment (n + k)) := by
  induction n generalizing p with
  | zero => simpa using hassignment p
  | succ n ih =>
      rw [Nat.add_right_comm, assignment_succ, assignment_succ]
      exact hwithin n p _ _ ((R n).assignmentLevel fun q _ => ih q)

variable (R : Nat → Comparison) {k : Nat}
  (hwithin : ∀ {α : Type} (n : Nat) (p : Parser) (rule : Rule) (body body' : Parse α),
    (R n).Holds (p.entering rule) body body' →
      (R (n + 1)).Holds p (within rule body) (within rule body'))
  (hassignment : ∀ p, (R 0).Holds p (assignment 0) (assignment k))

include hwithin hassignment

theorem compare_assignment (n : Nat) (p : Parser) :
    (R n).Holds p (assignment n) (assignment (n + k)) :=
  QuietComparison.expressions (fun n => (R n).toQuietComparison)
    (fun n p _ _ => hwithin n p _ _ _) hassignment n p

/-- **Statements.** -/
theorem compare_statement (hstatement : ∀ p, (R 0).Holds p (statement 0) (statement k))
    (n : Nat) (p : Parser) : (R n).Holds p (statement n) (statement (n + k)) := by
  induction n generalizing p with
  | zero => simpa using hstatement p
  | succ n ih =>
      rw [Nat.add_right_comm, statement_succ, statement_succ]
      refine (R (n + 1)).bind ((R (n + 1)).note p) fun _ q _ => ?_
      refine hwithin n q _ _ _ ((R n).statementLevel ?_ fun r _ => ih r)
      exact fun r _ => compare_assignment R hwithin hassignment n r

end Levels

end TildeLang
