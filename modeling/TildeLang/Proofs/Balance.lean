import Mathlib
import TildeLang.Proofs.Counter

/-!
# The depth is balanced

The depth goes up by one where a level is opened and down by one where it is
closed.  A run of any rule is **balanced**: whatever its outcome, it comes back
to the depth from which it started, it is never below that depth or above the
limit on the way, and it never closes a level where none is open.

* `Production` — the rules of the grammar;
* `Steps` — going from one depth to another, moment by moment;
* `Parser.Balanced` — what a run does to the depth;
* `depth_balanced` — every rule is balanced, from every parser within the limit.
-/

namespace TildeLang

/-! ### Steps of the depth -/

/-- What an event does to the depth.  A level is closed only where one is open. -/
def Event.Moves (before after : Nat) : Event → Prop
  | opened _ => after = before + 1
  | closed _ => before = after + 1
  | _ => after = before

theorem Event.moves_of_keepsLevels {event : Event} {depth : Nat}
    (h : event.keepsLevels = true) : event.Moves depth depth := by
  cases event with
  | opened _ => simp [keepsLevels, opens] at h
  | closed _ => simp [keepsLevels, closes] at h
  | _ => rfl

/-- The depth goes from one value to another through some moments, the latest
of which stands first. -/
inductive Steps (start : Nat) : List Moment → Nat → Prop
  | nil : Steps start [] start
  | cons {m : Moment} {older : List Moment} {before : Nat} (h : Steps start older before)
      (hmoves : m.event.Moves before m.cursor.depth) : Steps start (m :: older) m.cursor.depth

theorem Steps.trans {first second third : Nat} {older newer : List Moment}
    (h : Steps first older second) (h' : Steps second newer third) :
    Steps first (newer ++ older) third := by
  induction h' with
  | nil => exact h
  | cons _ hmoves ih => exact .cons ih hmoves

theorem Steps.of_keepsLevels {depth : Nat} {new : List Moment}
    (h : ∀ m ∈ new, m.cursor.depth = depth ∧ m.event.keepsLevels = true) :
    Steps depth new depth := by
  induction new with
  | nil => exact .nil
  | cons m new ih =>
      obtain ⟨⟨hdepth, hevent⟩, hnew⟩ := List.forall_mem_cons.mp h
      subst hdepth
      exact .cons (ih hnew) (Event.moves_of_keepsLevels hevent)

namespace Parser

/-- A run leaves the depth as it found it, and moves it step by step within
bounds: the depth at the start below, and the limit above. -/
structure Balanced (limit : Nat) (p p' : Parser) : Prop where
  returns : p'.depth = p.depth
  exists_new : ∃ new, p'.history = new ++ p.history ∧ Steps p.depth new p'.depth ∧
    ∀ m ∈ new, p.depth ≤ m.cursor.depth ∧ m.cursor.depth ≤ limit

variable {limit : Nat} {p q r : Parser}

theorem Stays.balanced (h : p.Stays q) (hlimit : p.depth ≤ limit) : p.Balanced limit q := by
  obtain ⟨hdepth, new, hhistory, hnew⟩ := h
  refine ⟨hdepth, new, hhistory, hdepth.symm ▸ Steps.of_keepsLevels hnew, ?_⟩
  intro m hm
  have hstays := (hnew m hm).1
  omega

theorem Balanced.trans (h : p.Balanced limit q) (h' : q.Balanced limit r) :
    p.Balanced limit r := by
  obtain ⟨hdepth, older, holder, hsteps, hbounds⟩ := h
  obtain ⟨hdepth', newer, hnewer, hsteps', hbounds'⟩ := h'
  refine ⟨hdepth'.trans hdepth, newer ++ older, ?_, hsteps.trans hsteps', ?_⟩
  · rw [hnewer, holder, List.append_assoc]
  · intro m hm
    rcases List.mem_append.mp hm with hlate | hearly
    · exact hdepth ▸ hbounds' m hlate
    · exact hbounds m hearly

/-- Opening a level, a balanced run inside it, and closing the level. -/
theorem Balanced.nest {rule : Rule} (h : (p.entering rule).Balanced limit q)
    (hlimit : p.depth < limit) : p.Balanced limit (q.leaving rule) := by
  obtain ⟨hdepth, new, hhistory, hsteps, hbounds⟩ := h
  have hinside : q.depth = p.depth + 1 := hdepth
  have hleft : (q.leaving rule).depth = p.depth := by
    change q.depth - 1 = p.depth
    omega
  let opening : Moment := ⟨.opened rule, (p.entering rule).toCursor⟩
  let closing : Moment := ⟨.closed rule, (q.leaving rule).toCursor⟩
  have hopening : Steps p.depth [opening] (p.depth + 1) := .cons .nil rfl
  have hclosing : Steps q.depth [closing] (q.leaving rule).depth := by
    refine .cons .nil ?_
    change q.depth = (q.leaving rule).depth + 1
    omega
  refine ⟨hleft, closing :: (new ++ [opening]), ?_, (hopening.trans hsteps).trans hclosing, ?_⟩
  · change closing :: q.history = _
    rw [hhistory, List.cons_append, List.append_assoc]
    rfl
  · intro m hm
    rcases List.mem_cons.mp hm with rfl | hm
    · change p.depth ≤ (q.leaving rule).depth ∧ (q.leaving rule).depth ≤ limit
      omega
    · rcases List.mem_append.mp hm with hin | hfirst
      · obtain ⟨hfloor, hceiling⟩ := hbounds m hin
        have hfloor : p.depth + 1 ≤ m.cursor.depth := hfloor
        omega
      · obtain rfl := List.mem_singleton.mp hfirst
        change p.depth ≤ p.depth + 1 ∧ p.depth + 1 ≤ limit
        omega

end Parser

namespace Parse

variable {α β : Type} {limit n : Nat} {p : Parser}

theorem balanced_bind {rule : Parse α} {next : α → Parse β}
    (hrule : p.Balanced limit (rule p).2)
    (hnext : ∀ a q, rule p = (.ok a, q) → q.Balanced limit (next a q).2) :
    p.Balanced limit ((rule >>= next) p).2 := by
  rcases hrun : rule p with ⟨answer, q⟩
  rw [hrun] at hrule
  cases answer with
  | ok a =>
      rw [bind_of_ok hrun]
      exact hrule.trans (hnext a q hrun)
  | error e =>
      rw [bind_of_error hrun]
      exact hrule

/-- Being balanced is a comparison, where so many levels may be opened above the
depth at the start. -/
def balancing (n : Nat) : Comparison where
  Holds p _ rule' := p.Balanced (p.depth + n) (rule' p).2
  congr h _ hrule' := hrule' ▸ h
  pure p _ := (Parser.Stays.refl p).balanced (by omega)
  note _ := (note_stays rfl).balanced (by omega)
  eat _ _ _ := eat_stays.balanced (by omega)
  fail _ _ _ _ := fail_stays.balanced (by omega)
  bind {_ _ p rule _ next _} hrule hnext := by
    refine balanced_bind hrule fun a q hrun => ?_
    have hdepth : q.depth = p.depth := by
      simpa only [hrun] using hrule.returns
    exact hdepth ▸ hnext a q hrun

/-- One level more may be opened around a run than inside it. -/
theorem balancing_within (n : Nat) (p : Parser) (rule : Rule) (body body' : Parse α)
    (h : (balancing n).Holds (p.entering rule) body body') :
    (balancing (n + 1)).Holds p (within rule body) (within rule body') := by
  have hinside : (p.entering rule).depth + n = p.depth + (n + 1) := by
    change p.depth + 1 + n = p.depth + (n + 1)
    omega
  have hbody : (p.entering rule).Balanced (p.depth + (n + 1)) (body' (p.entering rule)).2 :=
    hinside ▸ h
  exact hbody.nest (by omega)

/-- **Expressions** are balanced. -/
theorem assignment_balanced (n : Nat) (p : Parser) :
    p.Balanced (p.depth + n) (assignment n p).2 :=
  compare_assignment (k := 0) balancing balancing_within
    (fun _ => fail_stays.balanced (by omega)) n p

/-- **Statements** are too. -/
theorem statement_balanced (n : Nat) (p : Parser) :
    p.Balanced (p.depth + n) (statement n p).2 :=
  compare_statement (k := 0) balancing balancing_within
    (fun _ => fail_stays.balanced (by omega))
    (fun _ => balanced_bind ((note_stays rfl).balanced (by omega)) fun _ _ hnote =>
      fail_stays.balanced (by rw [depth_of_note hnote]; omega)) n p

/-! ### The rules of the grammar -/

/-- The rules of the grammar, each with what it reads.  An expression is an
assignment expression. -/
inductive Production : Type → Type 1
  /-- Statements, up to the end or to a kind of token that stops them. -/
  | statements (stop : Option Kind) : Production (List Stmt)
  | statement : Production Stmt
  | conditional : Production Stmt
  | block : Production Stmt
  | declaration (binding : Binding) : Production Stmt
  | expressionStatement : Production Stmt
  | declarators : Production (List Declarator)
  | declarator : Production Declarator
  | initializer : Production Expr
  | expression : Production Expr
  | sum : Production Expr
  | product : Production Expr
  | primary : Production Expr
  | parenthesized : Production Expr
  | literal : Production Literal
  | identifier : Production String

/-- How a rule of the grammar is read, with rules for the levels in it. -/
def Production.rule {α : Type} (rules : Rules) : Production α → Parse α
  | statements stop => collectWhile (fun kind => some kind != stop) rules.statement
  | statement => rules.statement
  | conditional => ifStatement rules.expression rules.statement
  | block => Parse.block rules.statement
  | declaration binding => Parse.declaration rules.expression binding
  | expressionStatement => do return .expression (← rules.expression)
  | declarators => Parse.declarators rules.expression
  | declarator => Parse.declarator rules.expression
  | initializer => Parse.initializer rules.expression
  | expression => rules.expression
  | sum => additive rules.expression
  | product => multiplicative rules.expression
  | primary => Parse.primary rules.expression
  | parenthesized => Parse.parenthesized rules.expression
  | literal => Parse.literal
  | identifier => Parse.identifier

end Parse

open Parse

/-- Rules that compare well for levels compare well for the whole grammar. -/
theorem QuietComparison.production (R : QuietComparison) {α : Type} {rules : Rules} {m : Nat}
    (hexpression : ∀ q, R.Holds q rules.expression (assignment m))
    (hstatement : ∀ q, R.Holds q rules.statement (Parse.statement m))
    (production : Production α) (p : Parser) :
    R.Holds p (production.rule rules) (production.rule (.limited m)) := by
  cases production with
  | statements stop => exact R.collectWhile (fun _ _ _ => size_statement_le) fun q _ => hstatement q
  | statement => exact hstatement p
  | conditional => exact R.ifStatement (fun q _ => hexpression q) fun q _ => hstatement q
  | block => exact R.block fun q _ => hstatement q
  | declaration binding => exact R.declaration binding fun q _ => hexpression q
  | expressionStatement => exact R.bind (hexpression p) fun e q _ => R.pure q _
  | declarators => exact R.declarators fun q _ => hexpression q
  | declarator => exact R.declarator fun q _ => hexpression q
  | initializer => exact R.initializer fun q _ => hexpression q
  | expression => exact hexpression p
  | sum => exact R.additive fun q _ => hexpression q
  | product => exact R.multiplicative fun q _ => hexpression q
  | primary => exact R.primary fun q _ => hexpression q
  | parenthesized => exact R.parenthesized fun q _ => hexpression q
  | literal => exact R.literal
  | identifier => exact R.identifier

namespace Parse.Production

variable {α : Type} {limit : Nat} {p : Parser}

/-- Counting levels from a parser within the limit is opening those that the
depth leaves. -/
theorem rule_counted (production : Production α) (h : p.depth ≤ limit) :
    production.rule (.counted limit) p = production.rule (.limited (limit - p.depth)) p := by
  have hsame := (remaining limit (limit - p.depth)).production
    (Rules.counted_expression_remaining limit _) (Rules.counted_statement_remaining limit _)
    production p
  exact hsame.2 (by omega)

theorem limited_balanced (production : Production α) (n : Nat) (p : Parser) :
    p.Balanced (p.depth + n) (production.rule (.limited n) p).2 := by
  have hholds : (balancing n).Holds p (production.rule (.limited n))
      (production.rule (.limited n)) :=
    (balancing n).production (assignment_balanced n) (statement_balanced n) production p
  exact hholds

end Parse.Production

/-- **The depth is balanced.**  There are rules that look at the depth to see
whether a level may be opened.  From every parser within the limit they do what
the rules do that may open the levels that are left; and whatever rule of the
grammar is run, with whatever outcome, the depth comes back to where it was and
stays between there and the limit, and no level is closed where none is open. -/
theorem depth_balanced {α : Type} (production : Production α) (p : Parser)
    (hdepth : p.depth ≤ maxNesting) :
    (Rules.counted maxNesting).Counting maxNesting ∧
      production.rule (.counted maxNesting) p
        = production.rule (.limited (maxNesting - p.depth)) p ∧
      p.Balanced maxNesting (production.rule (.counted maxNesting) p).2 := by
  have hsame := production.rule_counted hdepth
  have hbalanced := production.limited_balanced (maxNesting - p.depth) p
  rw [Nat.add_sub_cancel' hdepth, ← hsame] at hbalanced
  exact ⟨Rules.counted_counting maxNesting, hsame, hbalanced⟩

/-- A parenthesis where all levels are open: it is used, what stands behind it is
refused, and the depth is as before. -/
theorem depth_balanced_at_limit :
    let opening : Token := ⟨.delimiter, .leftParen, .text "(", "(", 0, 1, ⟨1, 1⟩⟩
    let p : Parser := ⟨⟨⟨"aa)".toList, 1, ⟨1, 2⟩⟩, some opening, maxNesting⟩, []⟩
    let run := Production.parenthesized.rule (.counted maxNesting) p
    p.depth ≤ maxNesting ∧
      run.1 = .error (.grammar ⟨.assignmentExpression, .nestingTooDeep maxNesting, ⟨1, 2⟩⟩) ∧
      p.Balanced maxNesting run.2 := by
  intro opening p run
  have hrefused : (Parse.parenthesized (Rules.counted maxNesting).expression p).1 = .error
      (.grammar ⟨.assignmentExpression, .nestingTooDeep maxNesting, ⟨1, 2⟩⟩) := by cbv
  exact ⟨by decide, hrefused, (depth_balanced Production.parenthesized p (by decide)).2.2⟩

end TildeLang
