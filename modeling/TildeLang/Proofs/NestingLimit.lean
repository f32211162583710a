import TildeLang.Proofs.Levels
import TildeLang.Proofs.Siblings
import TildeLang.Proofs.Unlimited

/-!
# Where the limit cuts a run off

The rules that may open so many levels are followed side by side with rules
that may open more.  The two do the same until the latter open one level too
many; there the former give up, and tell of the token that is read ahead at
that moment.

* `Moment.CutsOff` — a moment at which a run is cut off;
* `CutOff` — two runs side by side;
* `cutting` — the rules, side by side;
* `CutAt` — what a limit does to reading a source;
* `nesting_limit` — the parser against the parser without a limit.
-/

namespace TildeLang

/-- At the moment one level too many is opened, and the answer is the error
that tells of it. -/
structure Moment.CutsOff {α : Type} (limit : Nat) (m : Moment) (answer : Except Error α) :
    Prop where
  depth : m.cursor.depth = limit + 1
  exists_rule : ∃ rule, (rule = .statement ∨ rule = .assignmentExpression) ∧
    m.event = .opened rule ∧
    answer = .error (.grammar ⟨rule, .nestingTooDeep limit, m.cursor.position⟩)

/-- The first of some moments at which more levels are open than may be. -/
def firstTooDeep? (limit : Nat) (moments : List Moment) : Option Moment :=
  moments.find? fun m => limit < m.cursor.depth

/-- Of two runs from one parser, the first does what the second does, unless
the second opens too many levels; then the first is cut off there. -/
def CutOff {α : Type} (limit : Nat) (p : Parser) (run run' : Except Error α × Parser) : Prop :=
  ∃ new, run'.2.history = new.reverse ++ p.history ∧
    match firstTooDeep? limit new with
    | none => run = run'
    | some m => m.CutsOff limit run.1

section FirstTooDeep

variable {limit : Nat} {m : Moment} {moments : List Moment}

theorem firstTooDeep?_append (limit : Nat) (moments more : List Moment) :
    firstTooDeep? limit (moments ++ more)
      = (firstTooDeep? limit moments).or (firstTooDeep? limit more) :=
  List.find?_append

theorem firstTooDeep?_cons_of_le (h : m.cursor.depth ≤ limit) :
    firstTooDeep? limit (m :: moments) = firstTooDeep? limit moments :=
  List.find?_cons_of_neg (by simpa using h)

theorem firstTooDeep?_cons_of_lt (h : limit < m.cursor.depth) :
    firstTooDeep? limit (m :: moments) = some m :=
  List.find?_cons_of_pos (by simpa using h)

theorem firstTooDeep?_eq_none_iff :
    firstTooDeep? limit moments = none ↔ ∀ m ∈ moments, m.cursor.depth ≤ limit := by
  simp [firstTooDeep?]

end FirstTooDeep

section SideBySide

variable {α β : Type} {limit : Nat} {p : Parser}

/-- A run that keeps levels is not cut off. -/
theorem CutOff.of_stays {run : Except Error α × Parser} (h : p.Stays run.2)
    (hdepth : p.depth ≤ limit) : CutOff limit p run run := by
  obtain ⟨_, new, hhistory, hnew⟩ := h
  refine ⟨new.reverse, by rw [List.reverse_reverse, hhistory], ?_⟩
  rw [firstTooDeep?_eq_none_iff.mpr]
  intro m hm
  rw [(hnew m (List.mem_reverse.mp hm)).1]
  exact hdepth

/-- A rule that is cut off is followed by no other. -/
theorem Moment.CutsOff.bind {m : Moment} {rule : Parse α} {next : α → Parse β}
    (h : m.CutsOff limit (rule p).1) : m.CutsOff limit ((rule >>= next) p).1 := by
  obtain ⟨hdepth, level, hlevel, hevent, hanswer⟩ := h
  refine ⟨hdepth, level, hlevel, hevent, ?_⟩
  rw [Parse.bind_of_error (Prod.ext hanswer rfl)]

/-- One rule after another. -/
theorem CutOff.bind {rule rule' : Parse α} {next next' : α → Parse β}
    (hrule : CutOff limit p (rule p) (rule' p))
    (hnext : ∀ a q, rule' p = (.ok a, q) → CutOff limit q (next a q) (next' a q)) :
    CutOff limit p ((rule >>= next) p) ((rule' >>= next') p) := by
  obtain ⟨new, hhistory, hcut⟩ := hrule
  rcases hrun : rule' p with ⟨answer, q⟩
  rw [hrun] at hhistory hcut
  cases answer with
  | error e =>
      rw [Parse.bind_of_error hrun]
      refine ⟨new, hhistory, ?_⟩
      split at hcut
      · exact Parse.bind_of_error hcut
      · exact hcut.bind
  | ok a =>
      rw [Parse.bind_of_ok hrun]
      obtain ⟨more, hmore, hcut'⟩ := hnext a q hrun
      have hhistory : q.history = new.reverse ++ p.history := hhistory
      refine ⟨new ++ more, by simp [hmore, hhistory], ?_⟩
      rw [firstTooDeep?_append]
      split at hcut
      · rename_i hfirst
        rw [hfirst, Option.none_or, Parse.bind_of_ok hcut]
        exact hcut'
      · rename_i m hfirst
        rw [hfirst, Option.some_or]
        exact hcut.bind

/-- Inside a level that may be opened. -/
theorem CutOff.within {rule : Rule} {body body' : Parse α} (hdepth : p.depth < limit)
    (hcarries : (p.entering rule).Carries (body' (p.entering rule)).2)
    (h : CutOff limit (p.entering rule) (body (p.entering rule)) (body' (p.entering rule))) :
    CutOff limit p (Parse.within rule body p) (Parse.within rule body' p) := by
  obtain ⟨new, hhistory, hcut⟩ := h
  rw [Parse.within_apply, Parse.within_apply]
  generalize body' (p.entering rule) = run' at hcarries hhistory hcut
  have hleft : (run'.2.leaving rule).depth = p.depth := hcarries.nest.depth
  let before : Moment := ⟨.opened rule, (p.entering rule).toCursor⟩
  let after : Moment := ⟨.closed rule, (run'.2.leaving rule).toCursor⟩
  refine ⟨before :: (new ++ [after]), ?_, ?_⟩
  · change after :: run'.2.history = _
    rw [hhistory]
    simp [before, Parser.entering, Parser.record, Parser.moveTo]
  -- The level itself may be opened, and none is too deep when it is closed.
  have hbefore : before.cursor.depth ≤ limit := hdepth
  have hafter : after.cursor.depth ≤ limit := hleft ▸ Nat.le_of_lt hdepth
  rw [firstTooDeep?_cons_of_le hbefore, firstTooDeep?_append, firstTooDeep?_cons_of_le hafter,
    show firstTooDeep? limit [] = none from rfl, Option.or_none]
  split at hcut
  · rw [hcut]
  · exact hcut

/-- A level that may not be opened. -/
theorem CutOff.tooDeep {rule : Rule} (hrule : rule = .statement ∨ rule = .assignmentExpression)
    {body' : Parse α} (h : (p.entering rule).Carries (body' (p.entering rule)).2) :
    CutOff p.depth p (Parse.tooDeep rule p) (Parse.within rule body' p) := by
  obtain ⟨new, hhistory⟩ := h.grows
  rw [Parse.within_apply]
  generalize body' (p.entering rule) = run' at hhistory
  let before : Moment := ⟨.opened rule, (p.entering rule).toCursor⟩
  let after : Moment := ⟨.closed rule, (run'.2.leaving rule).toCursor⟩
  refine ⟨before :: (new.reverse ++ [after]), ?_, ?_⟩
  · change after :: run'.2.history = _
    rw [← hhistory]
    simp [before, Parser.entering, Parser.record, Parser.moveTo]
  rw [firstTooDeep?_cons_of_lt (show p.depth < before.cursor.depth from Nat.lt_succ_self _)]
  exact ⟨rfl, rule, hrule, rfl, rfl⟩

end SideBySide

/-! ### The rules -/

namespace Parse

/-- Being cut off is a comparison.  It is between rules that may still open so
many levels, from a parser that leaves room for them, and rules that may open
more. -/
def cutting (limit n : Nat) : Comparison where
  Holds p rule rule' :=
    p.Carries (rule' p).2 ∧ (p.depth + n = limit → CutOff limit p (rule p) (rule' p))
  congr h hrule hrule' := by
    rw [hrule, hrule']
    exact h
  pure p a := ⟨carrying.pure p a, fun _ => .of_stays (.refl p) (by omega)⟩
  note p := ⟨carrying.note p, fun _ => .of_stays (note_stays rfl) (by omega)⟩
  eat p kind rule := ⟨carrying.eat p kind rule, fun _ => .of_stays eat_stays (by omega)⟩
  fail p rule cause h := ⟨carrying.fail p rule cause h, fun _ => .of_stays fail_stays (by omega)⟩
  bind hrule hnext := by
    refine ⟨carries_bind hrule.1 fun a q hrun => (hnext a q hrun).1, fun hlimit => ?_⟩
    refine (hrule.2 hlimit).bind fun a q hrun => (hnext a q hrun).2 ?_
    have hdepth := hrule.1.depth
    rw [hrun] at hdepth
    exact hdepth ▸ hlimit

section Cutting

variable {α : Type} {limit n : Nat} {p : Parser}

theorem cutting_of_stays {rule : Parse α} (h : p.Stays (rule p).2) :
    (cutting limit n).Holds p rule rule :=
  ⟨h.carries, fun _ => .of_stays h (by omega)⟩

theorem cutting_within {rule : Rule} {body body' : Parse α}
    (h : (cutting limit n).Holds (p.entering rule) body body') :
    (cutting limit (n + 1)).Holds p (within rule body) (within rule body') := by
  refine ⟨h.1.nest, fun hlimit => .within (by omega) h.1 (h.2 ?_)⟩
  change p.depth + 1 + n = limit
  omega

theorem cutting_tooDeep {rule : Rule} (hrule : rule = .statement ∨ rule = .assignmentExpression)
    {body' : Parse α} (h : (p.entering rule).Carries (body' (p.entering rule)).2) :
    (cutting limit 0).Holds p (tooDeep rule) (within rule body') := by
  refine ⟨h.nest, ?_⟩
  rintro rfl
  exact .tooDeep hrule h

private theorem assignment_cut_zero (k : Nat) (p : Parser) :
    (cutting limit 0).Holds p (assignment 0) (assignment k) := by
  cases k with
  | zero => exact cutting_of_stays fail_stays
  | succ k => exact cutting_tooDeep (Or.inr rfl) (assignmentLevel_carries k _)

private theorem statement_cut_zero (k : Nat) (p : Parser) :
    (cutting limit 0).Holds p (statement 0) (statement k) := by
  have hnote := (cutting limit 0).note p
  cases k with
  | zero => exact (cutting limit 0).bind hnote fun _ q _ => cutting_of_stays fail_stays
  | succ k =>
      exact (cutting limit 0).bind hnote fun _ q _ =>
        cutting_tooDeep (Or.inl rfl) (statementLevel_carries k _)

/-- **Expressions.**  More levels change only what comes after one level too
many. -/
theorem assignment_cut (limit n k : Nat) (p : Parser) :
    (cutting limit n).Holds p (assignment n) (assignment (n + k)) :=
  compare_assignment (cutting limit) (fun _ _ _ _ _ => cutting_within) (assignment_cut_zero k) n p

/-- **Statements.** -/
theorem statement_cut (limit n k : Nat) (p : Parser) :
    (cutting limit n).Holds p (statement n) (statement (n + k)) :=
  compare_statement (cutting limit) (fun _ _ _ _ _ => cutting_within) (assignment_cut_zero k)
    (statement_cut_zero k) n p

/-- A program is read as without a limit, or cut off. -/
theorem program_cut (limit n : Nat) (p : Parser) :
    (cutting limit n).Holds p (program n) Rules.unlimited.program := by
  have hprogram : (cutting limit n).Holds p (Rules.limited n).program
      (Rules.limited (n + (p.size + 2))).program :=
    (cutting limit n).program (.limited n) fun q _ => statement_cut limit n _ q
  exact (cutting limit n).congr hprogram rfl (Rules.unlimited_program_eq (by omega))

theorem soleExpression_cut (limit n : Nat) (p : Parser) :
    (cutting limit n).Holds p (soleExpression n) Rules.unlimited.soleExpression := by
  have hexpression : (cutting limit n).Holds p (Rules.limited n).soleExpression
      (Rules.limited (n + (p.size + 2))).soleExpression :=
    (cutting limit n).soleExpression (.limited n) (assignment_cut limit n _ p)
  exact (cutting limit n).congr hexpression rfl (Rules.unlimited_soleExpression_eq (by omega))

end Cutting

end Parse

/-! ### Sources -/

/-- What a limit does to reading a source, given the run without a limit. -/
structure CutAt {α : Type} (limit : Nat) (answer : Except Error α)
    (run : Except Error α × Parser) : Prop where
  /-- At every moment of the run, the depth is the number of levels that are
  open. -/
  counted : ∀ m older, m :: older <:+ run.2.history → m.cursor.depth = openLevels (m :: older)
  /-- A run that never has more levels open than may be is not changed. -/
  same : (∀ m ∈ run.2.history, m.cursor.depth ≤ limit) → answer = run.1
  /-- Any other run is cut off at the first moment at which it has. -/
  cut : (∃ m ∈ run.2.history, limit < m.cursor.depth) →
    ∃ m, firstTooDeep? limit run.2.history.reverse = some m ∧ m.CutsOff limit answer

open Parse

variable {α : Type} {source : String}

/-- What is read from the front of a source is changed by the limit if it is
cut off. -/
theorem Parse.cutAt_of_cutting {limit : Nat} {rule rule' : Parse α} {events : List Event}
    (hevents : ∀ event ∈ events, event.keepsLevels = true)
    (h : ∀ p, (cutting limit limit).Holds p rule rule') (p p' : Parser) :
    CutAt limit ((Parser.restart source events >>= fun _ => rule) p).1
      ((Parser.restart source events >>= fun _ => rule') p') := by
  have hcutting : (cutting limit limit).Holds (Parser.ofText source)
      (fetch events >>= fun _ => rule) (fetch events >>= fun _ => rule') :=
    (cutting limit limit).bind (cutting_of_stays (fetch_stays hevents)) fun _ q _ => h q
  obtain ⟨hcarries, hcut⟩ := hcutting
  obtain ⟨new, hhistory, hcut⟩ := hcut (Nat.zero_add limit)
  rw [Parser.restart_bind, Parser.restart_bind]
  generalize (fetch events >>= fun _ => rule') (Parser.ofText source) = run'
    at hcarries hhistory hcut
  have hnew : run'.2.history.reverse = new := by simp [hhistory, Parser.ofText]
  rw [← hnew] at hcut
  have hnone : firstTooDeep? limit run'.2.history.reverse = none ↔
      ∀ m ∈ run'.2.history, m.cursor.depth ≤ limit := by
    simp [firstTooDeep?_eq_none_iff]
  refine ⟨fun m older => (hcarries.accounts .nil).depth_eq, ?_, ?_⟩
  · intro hle
    rw [hnone.mpr hle] at hcut
    exact congrArg Prod.fst hcut
  · rintro ⟨m, hm, hdeep⟩
    split at hcut
    · rename_i hfirst
      have hle := hnone.mp hfirst m hm
      omega
    · rename_i first hfirst
      exact ⟨first, hfirst, hcut⟩

theorem parse_cutAt (source : String) :
    CutAt maxNesting (parse source) (Parser.parseBy .unlimited source .unset) := by
  rw [parse_eq_parseBy]
  refine cutAt_of_cutting (List.forall_mem_singleton.mpr rfl) (fun p => ?_) _ _
  refine (cutting maxNesting maxNesting).bind (program_cut maxNesting maxNesting p) ?_
  intro result q _
  refine (cutting maxNesting maxNesting).bind (cutting_of_stays (note_stays rfl)) ?_
  exact fun _ r _ => (cutting maxNesting maxNesting).pure r result

theorem parseExpression_cutAt (source : String) :
    CutAt maxNesting (parseExpression source)
      (Parser.parseExpressionBy .unlimited source .unset) := by
  rw [parseExpression_eq_parseExpressionBy]
  exact cutAt_of_cutting (by simp) (soleExpression_cut maxNesting maxNesting) _ _

/-- **The limit.**  The parser reads with rules that may open so many levels,
and there is one pair of rules that opens them without a limit.  Reading a
source with those tells what the parser does: the same, if no more levels are
ever open than may be; otherwise it gives up at the moment at which the first
level too many would be opened.

Only levels inside one another count: any number of statements, of declarators
or of operands are read, if each of them is by itself. -/
theorem nesting_limit :
    (∀ source, parse source = (Parser.parseBy (.limited maxNesting) source .unset).1 ∧
      parseExpression source
        = (Parser.parseExpressionBy (.limited maxNesting) source .unset).1) ∧
    (∀ rules : Parse.Rules, rules.Unlimited ↔ rules = .unlimited) ∧
    (∀ source, CutAt maxNesting (parse source) (Parser.parseBy .unlimited source .unset)) ∧
    (∀ source, CutAt maxNesting (parseExpression source)
      (Parser.parseExpressionBy .unlimited source .unset)) ∧
    (∀ body : List Stmt, (∀ s ∈ body, (Program.mk [s]).Printable) →
      (Program.mk body).SparesSlashes → parse (Program.mk body).print = .ok ⟨body⟩) ∧
    (∀ binding declarators, declarators ≠ [] →
      (∀ d ∈ declarators, (Program.mk [.declare binding [d]]).Printable) →
      (Program.mk [.declare binding declarators]).SparesSlashes →
        parse (Program.mk [.declare binding declarators]).print
          = .ok ⟨[.declare binding declarators]⟩) ∧
    (∀ strength first (operands : List (BinaryOp × Expr)), operands ≠ [] →
      (∀ next ∈ operands, next.1.strength = strength) →
      (∀ next ∈ operands, (Program.mk [.expression (.binary next.1 first next.2)]).Printable) →
      (Program.mk [.expression (first.chain operands)]).SparesSlashes →
        parse (Program.mk [.expression (first.chain operands)]).print
          = .ok ⟨[.expression (first.chain operands)]⟩) :=
  ⟨fun source => ⟨parse_eq_parseBy source, parseExpression_eq_parseExpressionBy source⟩,
    fun _ => Rules.unlimited_iff, parse_cutAt, parseExpression_cutAt,
    fun _ => siblings_statements, fun _ _ => siblings_declarators,
    fun _ _ _ => siblings_operands⟩

/-- The parenthesis before the end of the input would open one level too many.
The second source opens few levels, and three hundred names side by side open
no more than one. -/
theorem nesting_limit_parentheses :
    parseExpression (String.ofList (List.replicate 256 '(')) = .error (.grammar
      ⟨.assignmentExpression, .nestingTooDeep 256, ⟨1, 257⟩⟩) ∧
    parse "(aa" = (Parser.parseBy .unlimited "(aa" .unset).1 ∧
    parse (Program.mk (List.replicate 300 (.expression (.identifier "aa")))).print
      = .ok ⟨List.replicate 300 (.expression (.identifier "aa"))⟩ := by
  obtain ⟨_, _, hprogram, hexpression, hstatements, _, _⟩ := nesting_limit
  refine ⟨?_, ?_, ?_⟩
  · have hfront : ∀ text, Parser.ofText (String.ofList text)
        = ⟨⟨⟨text, 0, ⟨1, 1⟩⟩, none, 0⟩, []⟩ := by
      simp [Parser.ofText, TokenStream.ofText, Position.start]
    have hdeep : (firstTooDeep? maxNesting (Parser.parseExpressionBy .unlimited
          (String.ofList (List.replicate 256 '(')) .unset).2.history.reverse).map
          (fun m => (m.event, m.cursor.position))
        = some (.opened .assignmentExpression, ⟨1, 257⟩) := by
      rw [Parser.parseExpressionBy, Parser.restart_bind, hfront]
      decide +kernel
    obtain ⟨m, hm, hplace⟩ := Option.map_eq_some_iff.mp hdeep
    obtain ⟨hopened, hposition⟩ := Prod.mk.inj hplace
    have htooDeep : maxNesting < m.cursor.depth := by simpa using List.find?_some hm
    obtain ⟨first, hfirst, _, rule, _, hevent, hanswer⟩ :=
      (hexpression _).cut ⟨m, List.mem_reverse.mp (List.mem_of_find?_eq_some hm), htooDeep⟩
    obtain rfl : m = first := Option.some.inj (hm.symm.trans hfirst)
    obtain rfl : rule = .assignmentExpression := by
      rw [hopened] at hevent
      cases hevent
      rfl
    rw [hanswer, hposition]
    rfl
  · refine (hprogram "(aa").same ?_
    decide +kernel
  · have hparse : parse "aa" = .ok ⟨[.expression (.identifier "aa")]⟩ := by cbv
    refine hstatements _ ?_ (Program.sparesSlashes_of_not_mem ?_)
    · intro s hs
      obtain rfl := List.eq_of_mem_replicate hs
      exact .of_parse hparse
    · rw [Program.leaves, Stmt.leavesAll_eq]
      intro hdivide
      obtain ⟨s, hs, hleaf⟩ := List.mem_flatMap.mp hdivide
      obtain rfl := List.eq_of_mem_replicate hs
      simp [Stmt.leaves, Expr.leaves] at hleaf

end TildeLang
