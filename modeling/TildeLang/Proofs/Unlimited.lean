import TildeLang.Proofs.Comparison

/-!
# Rules without a limit

What the parser would do if levels could be opened without end: a rule that
opens a level does inside it what it does, with itself for the expressions and
statements that it finds there.  These equations have one solution.  A rule
looks for a further level only after a token, or for the expression that a
statement begins with; so the tokens that are left bound the levels that a run
can open, and a rule that may open as many does without the limit.

* `Rules.Unlimited` — the equations;
* `Rules.unlimited_iff` — their solution;
* `Parser.parseBy`, `Parser.parseExpressionBy` — reading a source with some
  rules.
-/

namespace TildeLang

namespace Parse

/-- The rules open levels, and never give up for the number of open ones. -/
structure Rules.Unlimited (rules : Rules) : Prop where
  expression : rules.expression
    = within .assignmentExpression (assignmentLevel rules.expression)
  statement : rules.statement = (do
    note fun c => .statement c.position
    within .statement (statementLevel rules.expression rules.statement))

/-- Doing the same is a comparison. -/
def agreeing : Comparison where
  Holds p rule rule' := rule p = rule' p
  congr h hrule hrule' := by rw [hrule, hrule', h]
  pure _ _ := rfl
  note _ := rfl
  eat _ _ _ := rfl
  fail _ _ _ _ := rfl
  bind hrule hnext := (bind_congr_left hrule).trans (bind_congr hnext)

/-! ### Enough levels -/

section Enough

variable {expression : Parse Expr} {statement : Parse Stmt} {n m : Nat} {p : Parser}

theorem within_congr {α : Type} {rule : Rule} {body body' : Parse α}
    (h : body (p.entering rule) = body' (p.entering rule)) :
    within rule body p = within rule body' p := by
  rw [within_apply, within_apply, h]

/-- The level of an expression is that of the rule with one more level, if what
is read inside it agrees. -/
theorem within_assignmentLevel_eq
    (hexpression : ∀ q, q.size < p.size → expression q = assignment n q) :
    within .assignmentExpression (assignmentLevel expression) p = assignment (n + 1) p := by
  rw [assignment_succ]
  exact within_congr (agreeing.assignmentLevel hexpression)

theorem within_statementLevel_eq
    (hexpression : ∀ q, q.size ≤ p.size → expression q = assignment n q)
    (hstatement : ∀ q, q.size < p.size → statement q = Parse.statement n q) :
    (do
      note fun c => .statement c.position
      within .statement (statementLevel expression statement) : Parse Stmt) p
        = Parse.statement (n + 1) p := by
  rw [statement_succ]
  refine bind_congr fun _ _ hnote => ?_
  cases hnote
  exact within_congr (agreeing.statementLevel hexpression hstatement)

/-- **Expressions.**  As many levels as tokens and one more are enough. -/
theorem assignment_enough (hn : p.size < n) (hm : p.size < m) :
    assignment n p = assignment m p := by
  induction m generalizing n p with
  | zero => omega
  | succ m ih =>
      obtain ⟨n, rfl⟩ : ∃ k, n = k + 1 := ⟨n - 1, by omega⟩
      exact within_assignmentLevel_eq fun q hq => ih (by omega) (by omega)

/-- **Statements.**  As many levels as tokens and two more are enough. -/
theorem statement_enough (hn : p.size + 1 < n) (hm : p.size + 1 < m) :
    Parse.statement n p = Parse.statement m p := by
  induction m generalizing n p with
  | zero => omega
  | succ m ih =>
      obtain ⟨n, rfl⟩ : ∃ k, n = k + 1 := ⟨n - 1, by omega⟩
      refine within_statementLevel_eq ?_ fun q hq => ih (by omega) (by omega)
      exact fun q hq => assignment_enough (by omega) (by omega)

end Enough

/-! ### The solution -/

namespace Rules

variable {rules : Rules} {n : Nat} {p : Parser}

/-- The rules that may open as many levels as a run can. -/
def unlimited : Rules where
  expression p := assignment (p.size + 1) p
  statement p := Parse.statement (p.size + 2) p

theorem Unlimited.expression_eq (h : rules.Unlimited) (hn : p.size < n) :
    rules.expression p = assignment n p := by
  induction n generalizing p with
  | zero => omega
  | succ n ih =>
      rw [h.expression]
      exact within_assignmentLevel_eq fun q hq => ih (by omega)

theorem Unlimited.statement_eq (h : rules.Unlimited) (hn : p.size + 1 < n) :
    rules.statement p = Parse.statement n p := by
  induction n generalizing p with
  | zero => omega
  | succ n ih =>
      rw [h.statement]
      refine within_statementLevel_eq ?_ fun q hq => ih (by omega)
      exact fun q hq => h.expression_eq (by omega)

theorem unlimited_expression (p : Parser) :
    unlimited.expression p
      = within .assignmentExpression (assignmentLevel unlimited.expression) p := by
  refine (within_assignmentLevel_eq (n := p.size) ?_).symm
  exact fun q hq => assignment_enough (Nat.lt_succ_self _) hq

theorem unlimited_statement (p : Parser) :
    unlimited.statement p = (do
      note fun c => .statement c.position
      within .statement (statementLevel unlimited.expression unlimited.statement)) p := by
  refine (within_statementLevel_eq (n := p.size + 1) ?_ ?_).symm
  · exact fun q hq => assignment_enough (Nat.lt_succ_self _) (by omega)
  · exact fun q hq => statement_enough (Nat.lt_succ_self _) (by omega)

/-- **One solution.**  Only these rules open levels without a limit. -/
theorem unlimited_iff : rules.Unlimited ↔ rules = unlimited := by
  constructor
  · intro h
    have hexpression : rules.expression = unlimited.expression :=
      funext fun p => h.expression_eq (Nat.lt_succ_self _)
    have hstatement : rules.statement = unlimited.statement :=
      funext fun p => h.statement_eq (Nat.lt_succ_self _)
    cases rules
    simp only [unlimited] at hexpression hstatement ⊢
    rw [hexpression, hstatement]
  · rintro rfl
    exact ⟨funext unlimited_expression, funext unlimited_statement⟩

/-- A program is read without a limit as with enough levels. -/
theorem unlimited_program_eq (hn : p.size + 1 < n) :
    unlimited.program p = (limited n).program p :=
  agreeing.program unlimited fun q hq => statement_enough (Nat.lt_succ_self _) (by omega)

theorem unlimited_soleExpression_eq (hn : p.size < n) :
    unlimited.soleExpression p = (limited n).soleExpression p :=
  agreeing.soleExpression unlimited (assignment_enough (Nat.lt_succ_self _) hn)

end Rules

end Parse

namespace Parser

/-- What a parser does after it has been put at the front of a source does not
depend on what it did before. -/
theorem restart_bind {α : Type} {source : String} (events : List Event) (next : Unit → Parse α)
    (p : Parser) :
    (restart source events >>= next) p = (Parse.fetch events >>= next) (ofText source) := rfl

/-- Reads a source as a program with some rules. -/
def parseBy (rules : Parse.Rules) (source : String) : Parse Program := do
  restart source [.began source.utf8ByteSize]
  let result ← rules.program
  Parse.note fun _ => .finished result.body.length
  return result

/-- Reads a source as a single expression with some rules. -/
def parseExpressionBy (rules : Parse.Rules) (source : String) : Parse Expr := do
  restart source []
  rules.soleExpression

end Parser

/-- The parser reads a program with the rules that may open so many levels. -/
theorem parse_eq_parseBy (source : String) :
    parse source = (Parser.parseBy (.limited maxNesting) source .unset).1 := rfl

theorem parseExpression_eq_parseExpressionBy (source : String) :
    parseExpression source
      = (Parser.parseExpressionBy (.limited maxNesting) source .unset).1 := rfl

end TildeLang
