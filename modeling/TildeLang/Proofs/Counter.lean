import TildeLang.Proofs.Levels
import TildeLang.Proofs.Unlimited

/-!
# The limit as a counter

The rules of the parser are made from the number of levels that may still be
opened.  They could as well count: look at the depth of the parser, which is
the number of levels that are open, and give up where it has come to the
limit.  Nothing but the parser then tells how many levels are left, and a rule
is defined by an equation in which it stands itself.

Since every rule leaves the depth as it found it, the depth and the number of
levels that may still be opened make up the limit throughout a run, and the two
ways come to the same.

* `Rules.Counting` — the equations of rules that count;
* `Rules.counting_iff` — their solution;
* `Parser.parseBy_counted`, `Parser.parseExpressionBy_counted` — reading a
  source by counting.
-/

namespace TildeLang

namespace Parse

variable {α : Type} {limit n : Nat} {p : Parser} {rule : Rule}

/-- Runs a rule one level deeper, unless as many levels are open as may be. -/
def nested (limit : Nat) (rule : Rule) (body : Parse α) : Parse α := fun p =>
  if limit ≤ p.depth then fail rule (fun _ => .nestingTooDeep limit) p else within rule body p

theorem nested_of_lt {body : Parse α} (h : p.depth < limit) :
    nested limit rule body p = within rule body p :=
  if_neg (Nat.not_le.mpr h)

theorem nested_of_le {body : Parse α} (h : limit ≤ p.depth) :
    nested limit rule body p = fail rule (fun _ => .nestingTooDeep limit) p :=
  if_pos h

/-- Where the depth has come to the limit, giving up tells of the limit. -/
theorem tooDeep_eq (h : p.depth = limit) :
    (tooDeep rule : Parse α) p = fail rule (fun _ => .nestingTooDeep limit) p := by
  simp only [tooDeep, fail, h]

theorem depth_of_note {event : Cursor → Event} {q : Parser}
    (h : note event p = (.ok (), q)) : q.depth = p.depth := by
  cases h
  rfl

/-- The rules look at the depth to see whether a level may be opened. -/
structure Rules.Counting (limit : Nat) (rules : Rules) : Prop where
  expression : rules.expression
    = nested limit .assignmentExpression (assignmentLevel rules.expression)
  statement : rules.statement = (do
    note fun c => .statement c.position
    nested limit .statement (statementLevel rules.expression rules.statement))

/-! ### The depth and the levels that are left -/

/-- Doing the same from a parser that leaves so many levels is a comparison,
since the second rule comes back to the depth from which it started. -/
def remaining (limit n : Nat) : Comparison where
  Holds p rule rule' := p.Carries (rule' p).2 ∧ (p.depth + n = limit → rule p = rule' p)
  congr h hrule hrule' := by
    rw [hrule, hrule']
    exact h
  pure p a := ⟨carrying.pure p a, fun _ => rfl⟩
  note p := ⟨carrying.note p, fun _ => rfl⟩
  eat p kind rule := ⟨carrying.eat p kind rule, fun _ => rfl⟩
  fail p rule cause h := ⟨carrying.fail p rule cause h, fun _ => rfl⟩
  bind hrule hnext := by
    refine ⟨carries_bind hrule.1 fun a q hrun => (hnext a q hrun).1, fun hlimit => ?_⟩
    refine (bind_congr_left (hrule.2 hlimit)).trans (bind_congr fun a q hrun => ?_)
    have hdepth := hrule.1.depth
    rw [hrun] at hdepth
    exact (hnext a q hrun).2 (hdepth ▸ hlimit)

section Remaining

variable {expression : Parse Expr} {statement : Parse Stmt}

/-- One level of an expression, where one more is left than inside it. -/
theorem nested_assignmentLevel
    (hexpression : ∀ q, (remaining limit n).Holds q expression (assignment n))
    (hlimit : p.depth + (n + 1) = limit) :
    nested limit .assignmentExpression (assignmentLevel expression) p = assignment (n + 1) p := by
  have hlevel := (remaining limit n).assignmentLevel (p := p.entering .assignmentExpression)
    fun q _ => hexpression q
  have hinside : (p.entering .assignmentExpression).depth + n = limit := by
    change p.depth + 1 + n = limit
    omega
  rw [nested_of_lt (by omega), assignment_succ]
  exact within_congr (hlevel.2 hinside)

theorem nested_statementLevel
    (hexpression : ∀ q, (remaining limit n).Holds q expression (assignment n))
    (hstatement : ∀ q, (remaining limit n).Holds q statement (Parse.statement n))
    (hlimit : p.depth + (n + 1) = limit) :
    (do
      note fun c => .statement c.position
      nested limit .statement (statementLevel expression statement) : Parse Stmt) p
        = Parse.statement (n + 1) p := by
  rw [statement_succ]
  refine bind_congr fun _ q hnote => ?_
  have hdepth := depth_of_note hnote
  have hlevel := (remaining limit n).statementLevel (p := q.entering .statement)
    (fun r _ => hexpression r) fun r _ => hstatement r
  have hinside : q.depth + 1 + n = limit := by omega
  exact (nested_of_lt (by omega)).trans (within_congr (hlevel.2 hinside))

/-- Where no level is left, a statement is begun and given up. -/
theorem nested_statement_of_le {body : Parse Stmt} (h : limit ≤ p.depth) :
    (do
      note fun c => .statement c.position
      nested limit .statement body : Parse Stmt) p
        = (do
      note fun c => .statement c.position
      fail .statement fun _ => .nestingTooDeep limit : Parse Stmt) p :=
  bind_congr fun _ _ hnote => nested_of_le (depth_of_note hnote ▸ h)

theorem statement_zero_eq (h : p.depth = limit) :
    Parse.statement 0 p = (do
      note fun c => .statement c.position
      fail .statement fun _ => .nestingTooDeep limit : Parse Stmt) p :=
  bind_congr fun _ _ hnote => tooDeep_eq ((depth_of_note hnote).trans h)

end Remaining

/-! ### The solution -/

namespace Rules

variable {rules : Rules}

/-- **Expressions.**  From a parser that leaves so many levels, a rule that
counts does what the rule does that may open so many. -/
theorem Counting.expression_remaining (h : rules.Counting limit) (n : Nat) (p : Parser) :
    (remaining limit n).Holds p rules.expression (assignment n) := by
  refine ⟨assignment_carries n p, fun hlimit => ?_⟩
  induction n generalizing p with
  | zero =>
      rw [h.expression, nested_of_le (by omega)]
      exact (tooDeep_eq hlimit).symm
  | succ n ih =>
      rw [h.expression]
      exact nested_assignmentLevel (fun q => ⟨assignment_carries n q, ih q⟩) hlimit

/-- **Statements.** -/
theorem Counting.statement_remaining (h : rules.Counting limit) (n : Nat) (p : Parser) :
    (remaining limit n).Holds p rules.statement (Parse.statement n) := by
  refine ⟨statement_carries n p, fun hlimit => ?_⟩
  induction n generalizing p with
  | zero =>
      rw [h.statement, nested_statement_of_le (by omega)]
      exact (statement_zero_eq hlimit).symm
  | succ n ih =>
      rw [h.statement]
      exact nested_statementLevel (h.expression_remaining n)
        (fun q => ⟨statement_carries n q, ih q⟩) hlimit

/-- The rules that open the levels that the depth leaves, and none where it
leaves none. -/
def counted (limit : Nat) : Rules where
  expression p :=
    if p.depth < limit then assignment (limit - p.depth) p
    else fail .assignmentExpression (fun _ => .nestingTooDeep limit) p
  statement p :=
    if p.depth < limit then Parse.statement (limit - p.depth) p
    else (do
      note fun c => .statement c.position
      fail .statement fun _ => .nestingTooDeep limit) p

theorem counted_expression_remaining (limit n : Nat) (p : Parser) :
    (remaining limit n).Holds p (counted limit).expression (assignment n) := by
  refine ⟨assignment_carries n p, fun hlimit => ?_⟩
  by_cases hdepth : p.depth < limit
  · obtain rfl : n = limit - p.depth := by omega
    exact if_pos hdepth
  · obtain rfl : n = 0 := by omega
    exact (if_neg hdepth).trans (tooDeep_eq hlimit).symm

theorem counted_statement_remaining (limit n : Nat) (p : Parser) :
    (remaining limit n).Holds p (counted limit).statement (Parse.statement n) := by
  refine ⟨statement_carries n p, fun hlimit => ?_⟩
  by_cases hdepth : p.depth < limit
  · obtain rfl : n = limit - p.depth := by omega
    exact if_pos hdepth
  · obtain rfl : n = 0 := by omega
    exact (if_neg hdepth).trans (statement_zero_eq hlimit).symm

theorem counted_counting (limit : Nat) : (counted limit).Counting limit := by
  constructor
  · funext p
    by_cases hdepth : p.depth < limit
    · obtain ⟨n, hlimit⟩ : ∃ n, p.depth + (n + 1) = limit := ⟨limit - p.depth - 1, by omega⟩
      rw [nested_assignmentLevel (counted_expression_remaining limit n) hlimit]
      exact (counted_expression_remaining limit (n + 1) p).2 hlimit
    · exact (if_neg hdepth).trans (nested_of_le (by omega)).symm
  · funext p
    by_cases hdepth : p.depth < limit
    · obtain ⟨n, hlimit⟩ : ∃ n, p.depth + (n + 1) = limit := ⟨limit - p.depth - 1, by omega⟩
      rw [nested_statementLevel (counted_expression_remaining limit n)
        (counted_statement_remaining limit n) hlimit]
      exact (counted_statement_remaining limit (n + 1) p).2 hlimit
    · exact (if_neg hdepth).trans (nested_statement_of_le (by omega)).symm

/-- **One solution.**  Only these rules count their levels. -/
theorem counting_iff : rules.Counting limit ↔ rules = counted limit := by
  constructor
  · intro h
    have hexpression : rules.expression = (counted limit).expression := by
      funext p
      by_cases hdepth : p.depth < limit
      · have hlimit : p.depth + (limit - p.depth) = limit := by omega
        exact ((h.expression_remaining _ p).2 hlimit).trans (if_pos hdepth).symm
      · rw [h.expression]
        exact (nested_of_le (by omega)).trans (if_neg hdepth).symm
    have hstatement : rules.statement = (counted limit).statement := by
      funext p
      by_cases hdepth : p.depth < limit
      · have hlimit : p.depth + (limit - p.depth) = limit := by omega
        exact ((h.statement_remaining _ p).2 hlimit).trans (if_pos hdepth).symm
      · rw [h.statement]
        exact (nested_statement_of_le (by omega)).trans (if_neg hdepth).symm
    cases rules
    simp only at hexpression hstatement
    rw [hexpression, hstatement]
  · rintro rfl
    exact counted_counting limit

end Rules

end Parse

/-! ### Sources -/

namespace Parser

open Parse

variable {source : String} {p q : Parser}

/-- At the front of a source, no level is open. -/
theorem depth_of_restart {events : List Event}
    (hevents : ∀ event ∈ events, event.keepsLevels = true)
    (h : restart source events p = (.ok (), q)) : q.depth = 0 := by
  have hrun : fetch events (p.reset source) = (.ok (), q) := h
  have hstays := fetch_stays (p := p.reset source) hevents
  rw [hrun] at hstays
  exact hstays.depth

/-- **Programs.**  Reading a source by counting is reading it with the rules that
may open as many levels as the limit says. -/
theorem parseBy_counted (limit : Nat) (source : String) (p : Parser) :
    parseBy (.counted limit) source p = parseWithin limit source p := by
  refine bind_congr fun _ q hrestart => ?_
  have hdepth := depth_of_restart (List.forall_mem_singleton.mpr rfl) hrestart
  have hprogram := (remaining limit limit).program (p := q) (.counted limit)
    fun r _ => Rules.counted_statement_remaining limit limit r
  exact bind_congr_left (hprogram.2 (by omega))

/-- **Single expressions.** -/
theorem parseExpressionBy_counted (limit : Nat) (source : String) (p : Parser) :
    parseExpressionBy (.counted limit) source p = parseExpressionWithin limit source p := by
  refine bind_congr fun _ q hrestart => ?_
  have hdepth := depth_of_restart (by simp) hrestart
  have hexpression := (remaining limit limit).soleExpression (p := q) (.counted limit)
    (Rules.counted_expression_remaining limit limit q)
  exact hexpression.2 (by omega)

end Parser

end TildeLang
