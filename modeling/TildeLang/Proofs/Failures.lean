import TildeLang.Proofs.FirstOffence

/-!
# Where a run stops

A rule that fails leaves its parser in front of the token at which it failed,
and a rule that breaks off at a lexical error has nothing more to read.  So a
run over a source that does not answer has stopped at a definite place of the
source, and the parser that is left tells which.

* `standing` — the position of an error is that of the parser that is left, and
  its cause is one that the rules give;
* `ParseError.MetIn` — a parser has come to an error from the front of a
  source;
* `parse_metIn`, `parseExpression_metIn` — so it is with the errors of the
  grammar;
* `tokenize_of_parse_lexical`, `tokenize_of_parseExpression_lexical` — and a
  lexical error is the first one of the source.
-/

namespace TildeLang

/-- The outcome that claims of failures only that their position is that of
the parser, and that the rules give their cause. -/
def Outcome.standing {α : Type} : Outcome α where
  answers _ _ := True
  fails e p := e.position = p.position ∧ e.cause.Given
  breaks _ _ := True

/-- That failures are where the parser stands is a comparison. -/
def standing : Comparison where
  Holds p _ rule' := rule'.Leads p .standing
  congr h _ hrule' := h.congr hrule'
  pure _ _ := trivial
  note _ := trivial
  eat _ _ _ := Parse.leads_eat (fun _ _ _ _ => trivial) (fun _ _ => ⟨rfl, trivial⟩)
    fun _ _ _ _ => trivial
  fail _ _ _ hgiven := ⟨rfl, hgiven _⟩
  bind hrule hnext := by
    refine Parse.leads_bind.mpr (.intro hnext ?_ fun _ _ _ => trivial)
    exact fun _ _ hrun => hrule.of_grammar hrun

namespace Parse

private theorem standing_within {α : Type} (p : Parser) (rule : Rule) (body : Parse α)
    (h : body.Leads (p.entering rule) .standing) : (within rule body).Leads p .standing :=
  leads_within.mpr (h.imp (fun _ _ _ => trivial) (fun _ _ hplace => hplace) fun _ _ _ => trivial)

theorem assignment_standing (n : Nat) (p : Parser) : (assignment n).Leads p .standing :=
  compare_assignment (k := 0) (fun _ => standing)
    (fun _ p rule _ body' => standing_within p rule body') (fun _ => ⟨rfl, trivial⟩) n p

theorem statement_standing (n : Nat) (p : Parser) : (statement n).Leads p .standing :=
  compare_statement (k := 0) (fun _ => standing)
    (fun _ p rule _ body' => standing_within p rule body') (fun _ => ⟨rfl, trivial⟩)
    (fun _ => ⟨rfl, trivial⟩) n p

theorem program_standing (n : Nat) (p : Parser) : (program n).Leads p .standing :=
  standing.program (.limited n) fun q _ => statement_standing n q

theorem soleExpression_standing (n : Nat) (p : Parser) : (soleExpression n).Leads p .standing :=
  standing.soleExpression (.limited n) (assignment_standing n p)

end Parse

/-- A parser has come from the front of a source to the place that an error
tells of. -/
structure ParseError.MetIn (source : String) (e : ParseError) (p : Parser) : Prop where
  reports : e.Reports p.toCursor
  given : e.cause.Given
  within : p.Within source.toList
  outlook : ∃ before,
    (TokenStream.ofText source).outlook = (before ++ p.upcoming, p.fault?)

/-- The outcome of running over a source, as far as its errors go. -/
def Outcome.stopping (α : Type) (source : String) : Outcome α where
  answers _ _ := True
  fails e p := e.MetIn source p
  breaks e _ := (TokenStream.ofText source).outlook.2 = some e

namespace Parse

variable {α : Type} {source : String} {rule : Parse α} {n : Nat}

/-- A rule that reads phrases, and fails where its parser stands, stops where
it says when it is run from the front of a source. -/
theorem Leads.stops {p : Parser} {phrases : Nat → Grammar.Phrases α} (hfront : p.AtFront source)
    (hreads : rule.Leads p (.reading p n phrases)) (hstanding : rule.Leads p .standing) :
    rule.Leads p (.stopping α source) := by
  refine .intro (fun _ _ _ => trivial) ?_ ?_
  · intro e p' hrun
    obtain ⟨ts, htrace, hwhy⟩ := hreads.of_grammar hrun
    have hnames : e.cause.Names p'.kind? := by
      rcases hwhy with hnesting | ⟨hreports, _⟩
      · cases hcause : e.cause with
        | nestingTooDeep limit => trivial
        | _ => simp [hcause, ParseCause.isNesting] at hnesting
      · exact hreports.names
    obtain ⟨hposition, hgiven⟩ := hstanding.of_grammar hrun
    refine ⟨⟨hposition, hnames⟩, hgiven, htrace.within hfront.within, ts, ?_⟩
    rw [← hfront.outlook, htrace.upcoming, htrace.fault?]
  · intro e p' hrun
    obtain ⟨hfault, _⟩ := hreads.of_lexical hrun
    have houtlook := congrArg Prod.snd hfront.outlook
    exact houtlook.symm.trans hfault

/-- So a run over a source stops where it says. -/
theorem restart_stops (hrule : ∀ p, p.AtFront source → rule.Leads p (.stopping α source))
    (events : List Event) (p : Parser) :
    (Parser.restart source events >>= fun _ => rule).Leads p (.stopping α source) := by
  refine leads_bind.mpr (Parser.leads_restart hrule ?_)
  intro e _ houtlook
  exact congrArg Prod.snd houtlook

end Parse

namespace Parser

/-- **Programs.**  Reading a source as a program stops where it says. -/
theorem parse_stops (p : Parser) (source : String) :
    (parseWithin maxNesting source).Leads p (.stopping Program source) := by
  refine Parse.restart_stops ?_ _ p
  intro p₁ hfront
  have hprogram := Parse.Leads.stops hfront (Parse.program_reads maxNesting p₁)
    (Parse.program_standing maxNesting p₁)
  -- Noting that the program is finished is no place to stop.
  exact Parse.leads_bind.mpr (hprogram.imp (fun _ _ _ => trivial) (fun _ _ h => h) fun _ _ h => h)

/-- **Single expressions.** -/
theorem parseExpression_stops (p : Parser) (source : String) :
    (parseExpressionWithin maxNesting source).Leads p (.stopping Expr source) := by
  refine Parse.restart_stops ?_ _ p
  intro p₁ hfront
  exact Parse.Leads.stops hfront (Parse.soleExpression_reads maxNesting p₁)
    (Parse.soleExpression_standing maxNesting p₁)

end Parser

section Sources

variable {source : String}

theorem parse_metIn {e : ParseError} (h : parse source = .error (.grammar e)) :
    e.MetIn source (Parser.unset.parse source).2 :=
  (Parser.unset.parse_stops source).of_grammar (Prod.ext h rfl)

theorem parseExpression_metIn {e : ParseError} (h : parseExpression source = .error (.grammar e)) :
    e.MetIn source (Parser.unset.parseExpression source).2 :=
  (Parser.unset.parseExpression_stops source).of_grammar (Prod.ext h rfl)

/-- A lexical error that stops the parser is the one that reading all tokens
gives. -/
theorem tokenize_of_parse_lexical {e : LexError} (h : parse source = .error (.lexical e)) :
    tokenize source = .error e :=
  tokenize_eq_error_iff.mpr ((Parser.unset.parse_stops source).of_lexical (Prod.ext h rfl))

theorem tokenize_of_parseExpression_lexical {e : LexError}
    (h : parseExpression source = .error (.lexical e)) : tokenize source = .error e :=
  tokenize_eq_error_iff.mpr
    ((Parser.unset.parseExpression_stops source).of_lexical (Prod.ext h rfl))

end Sources

end TildeLang
