import TildeLang.CommandLine.Run
import TildeLang.Proofs.Calls
import TildeLang.Proofs.Failures

/-!
# Reading tokens on demand and all at once

The parser asks for one token after another, and stops asking where it fails.
Reading all tokens of a source asks to the end.  Both walk along the same
stream, so the first lexical error is the same for both, unless the parser has
failed before it came there.

The command line prints a syntax tree or a list of tokens, and so what it does
with one flag tells something of what it does with the other.

* `TokenStream.start_lt_of_mem_outlook` — tokens come before the error that
  ends them;
* `ParseError.MetIn.exists_offender` — a parser that fails in a source that has
  a lexical error fails at a token before it;
* `parse_agrees_with_tokenize` — the two ways of reading a source.
-/

namespace TildeLang

namespace TokenStream

variable {s : TokenStream} {t : Token} {e : LexError}

/-- **Tokens come before the error that ends them.** -/
theorem start_lt_of_mem_outlook (ht : t ∈ s.outlook.1) (he : s.outlook.2 = some e) :
    t.start < e.offset := by
  fun_induction outlook s with
  | case1 s scanned e' next hs => cases ht
  | case2 s scanned next hs => cases ht
  | case3 s scanned t' next hs later ih =>
      rcases List.mem_cons.mp ht with rfl | hlater
      · obtain ⟨s', _, hscan⟩ := nextToken_reaches hs
        obtain ⟨s'', hreaches, hfails⟩ := outlook_fault he
        calc t.start = s'.offset := (scan_place hscan).1
          _ < next.offset := scan_advances hscan
          _ ≤ s''.offset := hreaches.offset_le
          _ = e.offset := (scan_error_place hfails).1.symm
      · exact ih hlater he

end TokenStream

/-- The error tells of one of the tokens of a source. -/
structure ParseError.OffendedBy (source : String) (e : ParseError) (t : Token) : Prop where
  mem : t ∈ (TokenStream.ofText source).outlook.1
  position : e.position = t.position
  names : e.cause.Names (some t.kind)

/-- **The offender comes first.**  In a source with a lexical error, an error
of the grammar tells of a token before it, which the parser still has read
ahead. -/
theorem ParseError.MetIn.exists_offender {source : String} {e : ParseError} {p : Parser}
    {fault : LexError} (h : e.MetIn source p) (hfault : tokenize source = .error fault) :
    ∃ t, p.lookahead = some t ∧ e.OffendedBy source t ∧ t.start < fault.offset := by
  obtain ⟨before, houtlook⟩ := h.outlook
  rw [tokenize_eq_error_iff] at hfault
  cases hahead : p.lookahead with
  | none =>
      -- At the end of the input there is no lexical error to come.
      simp [houtlook, Cursor.fault?, hahead] at hfault
  | some t =>
      have hmem : t ∈ (TokenStream.ofText source).outlook.1 := by
        simp [houtlook, Cursor.upcoming_of_lookahead hahead]
      refine ⟨t, rfl, ⟨hmem, ?_, ?_⟩, TokenStream.start_lt_of_mem_outlook hmem hfault⟩
      · rw [h.reports.position, Cursor.position, hahead]
      · simpa [Cursor.kind?, hahead] using h.reports.names

/-- A program that is accepted consists of tokens. -/
theorem tokenize_of_parse_ok {source : String} {program : Program}
    (h : parse source = .ok program) : ∃ ts, tokenize source = .ok ts := by
  obtain ⟨ts, htokens, _⟩ := parse_eq_ok_iff.mp h
  exact ⟨ts, htokens⟩

/-- A source with a lexical error is refused for it, or for a token before
it. -/
theorem parse_of_tokenize_error {source : String} {fault : LexError}
    (h : tokenize source = .error fault) :
    parse source = .error (.lexical fault) ∨
      ∃ e t, parse source = .error (.grammar e) ∧
        (Parser.unset.parse source).2.lookahead = some t ∧
        e.OffendedBy source t ∧ t.start < fault.offset := by
  cases hparse : parse source with
  | ok program =>
      obtain ⟨ts, htokens⟩ := tokenize_of_parse_ok hparse
      cases h.symm.trans htokens
  | error e =>
      cases e with
      | lexical e =>
          have hsame := (tokenize_of_parse_lexical hparse).symm.trans h
          cases hsame
          exact Or.inl rfl
      | grammar e =>
          obtain ⟨t, hahead, hoffended, hbefore⟩ := (parse_metIn hparse).exists_offender h
          exact Or.inr ⟨e, t, rfl, hahead, hoffended, hbefore⟩

/-! ### The command line -/

namespace CommandLine

variable {read : String → Except ReadError String} {words : List String} {a b : Arguments}
  {contents : Except ReadError String} {e : Error} {diagnostic : String}

theorem execute_eq (h : Arguments.ofWords words = .ok a) :
    execute read words = .ofResult (a.run (read a.file)) := by
  simp [execute, h]

theorem Outcome.exitCode_eq_zero_iff {result : Except Failure String} :
    (Outcome.ofResult result).exitCode = 0 ↔ ∃ text, result = .ok text := by
  cases result with
  | ok text => simp [ofResult]
  | error failure => cases failure <;> simp [ofResult]

namespace Arguments

theorem run_eq_ok_iff :
    (∃ text, a.run contents = .ok text) ↔
      ∃ source value, contents = .ok source ∧ a.result source = .ok value := by
  cases contents with
  | error e => simp [run]
  | ok source => cases hresult : a.result source <;> simp [run, hresult]

theorem run_eq_refused_iff :
    a.run contents = .error (.refused e diagnostic) ↔
      ∃ source, contents = .ok source ∧ a.result source = .error e ∧
        diagnostic = Diagnostic.render a.file source e := by
  cases contents with
  | error e => simp [run]
  | ok source =>
      cases hresult : a.result source with
      | ok value => simp [run, hresult]
      | error e' =>
          simp only [run, hresult, Except.error.injEq, Failure.refused.injEq, Except.ok.injEq,
            exists_eq_left']
          refine and_congr_right fun he => ?_
          rw [he, eq_comm]

/-- Where the syntax tree is printed, the tokens are. -/
theorem run_ok_of_tree (htree : a.tokens = false) (htokens : b.tokens = true)
    (h : ∃ text, a.run contents = .ok text) : ∃ text, b.run contents = .ok text := by
  obtain ⟨source, value, rfl, hvalue⟩ := run_eq_ok_iff.mp h
  cases hparse : TildeLang.parse source with
  | error e => simp [result, htree, hparse] at hvalue
  | ok program =>
      obtain ⟨ts, hts⟩ := tokenize_of_parse_ok hparse
      exact run_eq_ok_iff.mpr ⟨source, Token.listToJson ts, rfl, by simp [result, htokens, hts]⟩

/-- A lexical error is shown in the same way with the syntax tree and with the
tokens. -/
theorem run_refused_of_tree (htree : a.tokens = false) (htokens : b.tokens = true)
    (hfile : a.file = b.file) (hcode : e.code = "E_LEX")
    (h : a.run contents = .error (.refused e diagnostic)) :
    b.run contents = .error (.refused e diagnostic) := by
  obtain ⟨source, rfl, hresult, rfl⟩ := run_eq_refused_iff.mp h
  refine run_eq_refused_iff.mpr ⟨source, rfl, ?_, by rw [hfile]⟩
  cases hparse : TildeLang.parse source with
  | ok program => simp [result, htree, hparse] at hresult
  | error e' =>
      obtain rfl : e' = e := by simpa [result, htree, hparse] using hresult
      cases e' with
      | grammar e => simp [Error.code] at hcode
      | lexical e => simp [result, htokens, tokenize_of_parse_lexical hparse]

end Arguments

end CommandLine

open CommandLine in
/-- **Agreement.**  The parser meets a lexical error only if reading all tokens
does, and it is the same error.  If reading all tokens meets an error, then the
parser fails: with that error, or at a token that starts before it.

So a command line that prints a syntax tree succeeds only if one that prints
the tokens of the same file does, and if it shows a lexical error, the other
shows the same. -/
theorem parse_agrees_with_tokenize :
    (∀ source ts, tokenize source = .ok ts → ∀ e,
      parse source ≠ .error (.lexical e) ∧ parseExpression source ≠ .error (.lexical e)) ∧
    (∀ source e,
      parse source = .error (.lexical e) ∨ parseExpression source = .error (.lexical e) →
        tokenize source = .error e) ∧
    (∀ source fault, tokenize source = .error fault →
      parse source = .error (.lexical fault) ∨
        ∃ e t, parse source = .error (.grammar e) ∧
          (Parser.unset.parse source).2.lookahead = some t ∧
          e.OffendedBy source t ∧ t.start < fault.offset) ∧
    (∀ read tree list a b,
      Arguments.ofWords tree = .ok a → Arguments.ofWords list = .ok b →
      a.file = b.file → a.tokens = false → b.tokens = true →
        ((execute read tree).exitCode = 0 → (execute read list).exitCode = 0) ∧
        ∀ e diagnostic, a.run (read a.file) = .error (.refused e diagnostic) →
          e.code = "E_LEX" →
            b.run (read b.file) = .error (.refused e diagnostic) ∧
            execute read list = execute read tree) := by
  have hlexical : ∀ source e,
      parse source = .error (.lexical e) ∨ parseExpression source = .error (.lexical e) →
        tokenize source = .error e := by
    intro source e h
    exact h.elim tokenize_of_parse_lexical tokenize_of_parseExpression_lexical
  refine ⟨?_, hlexical, fun _ _ => parse_of_tokenize_error, ?_⟩
  · intro source ts htokens e
    have hnot : ¬(parse source = .error (.lexical e) ∨
        parseExpression source = .error (.lexical e)) := by
      intro h
      cases (hlexical source e h).symm.trans htokens
    exact not_or.mp hnot
  · intro read tree list a b htree hlist hfile hnotokens htokens
    rw [execute_eq htree, execute_eq hlist, ← hfile, Outcome.exitCode_eq_zero_iff,
      Outcome.exitCode_eq_zero_iff]
    refine ⟨Arguments.run_ok_of_tree hnotokens htokens, ?_⟩
    intro e diagnostic hrefused hcode
    have hsame := Arguments.run_refused_of_tree hnotokens htokens hfile hcode hrefused
    exact ⟨hsame, by rw [hsame, hrefused]⟩

open CommandLine in
/-- The tilde is no token, and the first source is refused for it.  No statement
begins with a parenthesis, so the second is refused for that as a program, and
for the tilde as an expression.  The third has no lexical error. -/
theorem parse_agrees_with_tokenize_tilde :
    (∃ fault, parse "aa\n~" = .error (.lexical fault) ∧ tokenize "aa\n~" = .error fault ∧
      execute (fun _ => .ok "aa\n~") ["--tokens", "f"] = execute (fun _ => .ok "aa\n~") ["f"]) ∧
    (∃ fault e t, parseExpression "(aa ~" = .error (.lexical fault) ∧
      parse "(aa ~" = .error (.grammar e) ∧ e.OffendedBy "(aa ~" t ∧ t.start < fault.offset) ∧
    (∃ ts, tokenize "aa bb" = .ok ts ∧ (∀ e, parseExpression "aa bb" ≠ .error (.lexical e)) ∧
      (execute (fun _ => .ok "aa bb") ["--tokens", "f"]).exitCode = 0) := by
  obtain ⟨hok, hlexical, herror, hcommand⟩ := parse_agrees_with_tokenize
  have hwords : Arguments.ofWords ["f"] = .ok ⟨"f", false, false⟩ := by cbv
  have hwords' : Arguments.ofWords ["--tokens", "f"] = .ok ⟨"f", false, true⟩ := by cbv
  have hcommand := fun read => hcommand read _ _ _ _ hwords hwords' rfl rfl rfl
  refine ⟨?_, ?_, ?_⟩
  · have hparse : parse "aa\n~" = .error (.lexical ⟨.unexpectedCharacter '~', 3, ⟨2, 1⟩⟩) := by
      cbv
    have hrun : (⟨"f", false, false⟩ : Arguments).run (.ok "aa\n~") = .error (.refused
        (.lexical ⟨.unexpectedCharacter '~', 3, ⟨2, 1⟩⟩)
        (Diagnostic.render "f" "aa\n~" (.lexical ⟨.unexpectedCharacter '~', 3, ⟨2, 1⟩⟩))) := by
      simp [Arguments.run, Arguments.result, hparse]
    exact ⟨_, hparse, hlexical _ _ (Or.inl hparse), ((hcommand _).2 _ _ hrun rfl).2⟩
  · have hexpression : parseExpression "(aa ~"
        = .error (.lexical ⟨.unexpectedCharacter '~', 4, ⟨1, 5⟩⟩) := by cbv
    have hparse : parse "(aa ~" = .error (.grammar
        ⟨.statement, .unexpectedStatement (some .leftParen), ⟨1, 1⟩⟩) := by cbv
    have htokens := hlexical _ _ (Or.inr hexpression)
    obtain hsame | ⟨e, t, hgrammar, _, hoffended, hbefore⟩ := herror _ _ htokens
    · cases hsame.symm.trans hparse
    · exact ⟨_, e, t, hexpression, hgrammar, hoffended, hbefore⟩
  · have hparse : parse "aa bb" = .ok
        ⟨[.expression (.identifier "aa"), .expression (.identifier "bb")]⟩ := by cbv
    obtain ⟨ts, hts⟩ := tokenize_of_parse_ok hparse
    refine ⟨ts, hts, fun e => (hok _ ts hts e).2, (hcommand _).1 ?_⟩
    simp [execute, hwords, Arguments.run, Arguments.result, hparse, Outcome.ofResult]

end TildeLang
