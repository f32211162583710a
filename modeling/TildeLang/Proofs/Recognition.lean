import TildeLang.Proofs.FollowingRules

/-!
# The parser recognizes the grammar

A source is accepted exactly when it can be cut into tokens from which the
grammar derives a tree, and the answer is that tree.

One direction is that the rules read the grammar: the tokens of an accepted
source have all been used, and they derive the answer.  The other is that the
rules follow the grammar when nothing is beyond the horizon.

* `recognition` — for programs and for single expressions.
-/

namespace TildeLang

open Grammar

namespace Parser

/-- The parser has just read the first token of a source ahead. -/
def AtFront (source : String) (p : Parser) : Prop :=
  ∃ scanned, (TokenStream.ofText source).nextToken = ⟨scanned, .ok p.lookahead, p.stream⟩

variable {source : String} {p : Parser}

/-- At the front of a source, everything is still to come. -/
theorem AtFront.outlook (h : p.AtFront source) :
    (p.upcoming, p.fault?) = (TokenStream.ofText source).outlook := by
  obtain ⟨scanned, hnext⟩ := h
  have hfetched := Cursor.outlook_fetched hnext p.depth
  exact Prod.ext hfetched.1 hfetched.2

theorem leads_restart {events : List Event} {outcome : Outcome Unit}
    (hanswers : ∀ p', p'.AtFront source → outcome.answers () p')
    (hbreaks : ∀ e p', (TokenStream.ofText source).outlook = ([], some e) →
      outcome.breaks e p') :
    (restart source events).Leads p outcome := by
  unfold Parse.Leads restart Parse.fetch reset
  rcases hnext : (TokenStream.ofText source).nextToken with ⟨scanned, answer, stream⟩
  cases answer with
  | ok next => exact hanswers _ ⟨scanned, hnext⟩
  | error e => exact hbreaks e _ (TokenStream.outlook_of_error hnext)

end Parser

namespace Parse

variable {α : Type} {phrases : Nat → Phrases α} {n : Nat} {source : String}

/-- **Soundness.**  A rule that reads phrases and answers only at the end of
the input answers with a phrase that is all of the source. -/
theorem restart_sound {rule : Parse α} (hreads : ∀ p, rule.Leads p (.reading p n phrases))
    (hexhausts : ∀ p, rule.Leads p (.answering fun _ p' => p'.kind? = none))
    (events : List Event) (p : Parser) :
    (Parser.restart source events >>= fun _ => rule).Leads p
      (.answering fun a _ => ∃ ts, tokenize source = .ok ts ∧ phrases n ts a) := by
  rw [leads_bind]
  refine Parser.leads_restart ?_ fun _ _ _ => trivial
  intro p₁ hfront
  refine .intro ?_ (fun _ _ _ => trivial) (fun _ _ _ => trivial)
  intro a p₂ hrun
  obtain ⟨ts, htrace, hphrase⟩ := (hreads p₁).of_ok hrun
  obtain ⟨hcoming, hfault⟩ := htrace.exhausted ((hexhausts p₁).of_ok hrun)
  refine ⟨ts, tokenize_eq_ok_iff.mpr ?_, hphrase⟩
  rw [← hfront.outlook, hcoming, hfault]

/-- **Completeness.**  A rule that follows a derivation whose tokens are all of
the source answers with its tree. -/
theorem restart_complete {rule : Parse α} {ts : List Token} {a : α}
    (hfollows : ∀ p, p.Shows none ts → rule.Leads p (.following none a []))
    (htokens : tokenize source = .ok ts) (events : List Event) (p : Parser) :
    (Parser.restart source events >>= fun _ => rule).Leads p
      ⟨fun b _ => b = a, fun _ _ => False, fun _ _ => False⟩ := by
  have houtlook := tokenize_eq_ok_iff.mp htokens
  rw [leads_bind]
  refine Parser.leads_restart ?_ ?_
  · intro p₁ hfront
    have hshows : p₁.Shows none ts := Prod.mk.inj (hfront.outlook.trans houtlook)
    refine (hfollows p₁ hshows).imp ?_ ?_ ?_
    · intro b p₂ hfollowed
      rcases hfollowed with ⟨rfl, _⟩ | ⟨_, hnone, _⟩
      · rfl
      · cases hnone
    · intro e p₂ hbeyond
      obtain ⟨_, hnone, _⟩ := hbeyond
      cases hnone
    · intro e p₂ hbeyond
      obtain ⟨_, hnone, _⟩ := hbeyond
      cases hnone
  · intro e _ hbroken
    rw [houtlook] at hbroken
    cases hbroken

/-- A rule that reads phrases up to the end of the input, and follows them,
accepts a source exactly when its tokens are one. -/
theorem restart_eq_ok_iff {rule : Parse α} (hreads : ∀ p, rule.Leads p (.reading p n phrases))
    (hexhausts : ∀ p, rule.Leads p (.answering fun _ p' => p'.kind? = none))
    (hfollows : ∀ p ts a, phrases n ts a → p.Shows none ts →
      rule.Leads p (.following none a []))
    {events : List Event} {p : Parser} {a : α} :
    ((Parser.restart source events >>= fun _ => rule) p).1 = .ok a ↔
      ∃ ts, tokenize source = .ok ts ∧ phrases n ts a := by
  rcases hrun : (Parser.restart source events >>= fun _ => rule) p with ⟨answer, p'⟩
  constructor
  · intro heq
    subst heq
    exact (restart_sound hreads hexhausts events p).of_ok hrun
  · intro hderived
    obtain ⟨ts, htokens, hphrase⟩ := hderived
    have hleads := restart_complete (fun p => hfollows p ts a hphrase) htokens events p
    cases answer with
    | ok b => exact congrArg _ (hleads.of_ok hrun)
    | error e =>
        cases e with
        | grammar e => exact (hleads.of_grammar hrun).elim
        | lexical e => exact (hleads.of_lexical hrun).elim

theorem fst_bind_congr {β : Type} {rule : Parse α} {next next' : α → Parse β} {p : Parser}
    (h : ∀ a p', (next a p').1 = (next' a p').1) :
    ((rule >>= next) p).1 = ((rule >>= next') p).1 := by
  change (Parse.bind rule next p).1 = (Parse.bind rule next' p).1
  unfold Parse.bind
  rcases rule p with ⟨answer, p'⟩
  cases answer with
  | ok a => exact h a p'
  | error e => rfl

/-- Noting something after a rule does not change its answer. -/
theorem fst_bind_note {rule : Parse α} {event : α → Cursor → Event} {p : Parser} :
    ((do
      let a ← rule
      note (event a)
      return a : Parse α) p).1 = (rule p).1 := by
  change (Parse.bind rule _ p).1 = _
  unfold Parse.bind
  rcases rule p with ⟨answer, p'⟩
  cases answer with
  | ok a => rfl
  | error e => rfl

end Parse

/-- Reading a source as a program is running the rule for programs from its
front. -/
theorem parse_eq (source : String) :
    parse source = ((Parser.restart source [.began source.utf8ByteSize] >>= fun _ =>
      Parse.program maxNesting) Parser.unset).1 :=
  Parse.fst_bind_congr fun _ _ => Parse.fst_bind_note

theorem parseExpression_eq (source : String) :
    parseExpression source = ((Parser.restart source [] >>= fun _ =>
      Parse.soleExpression maxNesting) Parser.unset).1 := rfl

/-- The programs that are accepted. -/
theorem parse_eq_ok_iff {source : String} {program : Program} :
    parse source = .ok program ↔
      ∃ ts, tokenize source = .ok ts ∧ Grammar.Program maxNesting ts program := by
  rw [parse_eq]
  exact Parse.restart_eq_ok_iff (Parse.program_reads maxNesting)
    (Parse.program_exhausts maxNesting) (Parse.program_follows maxNesting)

/-- The single expressions that are accepted. -/
theorem parseExpression_eq_ok_iff {source : String} {e : Expr} :
    parseExpression source = .ok e ↔
      ∃ ts, tokenize source = .ok ts ∧ Assignment maxNesting ts e := by
  rw [parseExpression_eq]
  exact Parse.restart_eq_ok_iff (Parse.soleExpression_reads maxNesting)
    (Parse.soleExpression_exhausts maxNesting) (Parse.soleExpression_follows maxNesting)

/-- **Recognition.**  The parser accepts exactly the sources whose tokens the
grammar derives with at most `maxNesting` levels, and it answers with the
derived tree; and so it does with single expressions. -/
theorem recognition (source : String) :
    (∀ program : Program, parse source = .ok program ↔
      ∃ ts, tokenize source = .ok ts ∧ Grammar.Program maxNesting ts program) ∧
    (∀ e : Expr, parseExpression source = .ok e ↔
      ∃ ts, tokenize source = .ok ts ∧ Assignment maxNesting ts e) :=
  ⟨fun _ => parse_eq_ok_iff, fun _ => parseExpression_eq_ok_iff⟩

end TildeLang
