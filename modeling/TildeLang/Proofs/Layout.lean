import TildeLang.Proofs.Likeness
import TildeLang.Proofs.Positions
import TildeLang.Proofs.Walk

/-!
# Layout does not matter

What the parser makes of a source depends on the words of the source alone: on
the kinds, the values and the texts of its tokens.  White space and comments,
and with them the places at which the tokens stand, change nothing but the
positions in errors, which are those of corresponding tokens.

* `SameOutcome` — what two sources with the same words have in common;
* `restart_alike` — two runs from the fronts of such sources;
* `EndAlike.sameOutcome` — two runs that end alike tell of corresponding places;
* `outcome_of_words` — programs and single expressions.
-/

namespace TildeLang

variable {α : Type} {source source' : String} {ts ts' : List Token}

/-- Two sources have the same outcome: the same answer, or errors of the same
rule and cause at tokens with the same index, or at the ends of the sources. -/
inductive SameOutcome (source source' : String) (ts ts' : List Token) :
    Except Error α → Except Error α → Prop
  | accepted (a : α) : SameOutcome source source' ts ts' (.ok a) (.ok a)
  | refused {rule : Rule} {cause : ParseCause} {i : Nat} {t t' : Token}
      (ht : ts[i]? = some t) (ht' : ts'[i]? = some t') :
      SameOutcome source source' ts ts' (.error (.grammar ⟨rule, cause, t.position⟩))
        (.error (.grammar ⟨rule, cause, t'.position⟩))
  | ended {rule : Rule} {cause : ParseCause} :
      SameOutcome source source' ts ts'
        (.error (.grammar ⟨rule, cause, .past source.toList⟩))
        (.error (.grammar ⟨rule, cause, .past source'.toList⟩))

/-! ### Two runs over sources -/

/-- A parser that is put at the front of a source that can be cut into tokens has
these tokens to come. -/
theorem Parser.restart_of_tokenize (h : tokenize source = .ok ts) (events : List Event)
    (p : Parser) :
    ∃ front, restart source events p = (.ok (), front) ∧
      front.upcoming = ts ∧ front.fault? = none ∧ front.depth = 0 := by
  have houtlook := tokenize_eq_ok_iff.mp h
  rcases hnext : (TokenStream.ofText source).nextToken with ⟨scanned, answer, stream⟩
  cases answer with
  | error e =>
      rw [TokenStream.outlook_of_error hnext] at houtlook
      cases houtlook
  | ok next =>
      obtain ⟨hcoming, hfault⟩ := Cursor.outlook_fetched hnext 0
      rw [houtlook] at hcoming hfault
      refine ⟨((ofText source).moveTo ⟨stream, next, 0⟩).record (events ++ scanned.map .scanned),
        ?_, hcoming, hfault, rfl⟩
      simp only [restart, Parse.fetch, reset_eq, ofText, hnext]

/-- **Two runs.**  From the fronts of sources with the same words, a rule that
does not see the layout ends alike. -/
theorem Parse.restart_alike {rule : Parse α} (hrule : Blind rule) (h : tokenize source = .ok ts)
    (h' : tokenize source' = .ok ts') (hwords : ts.map Token.spelling = ts'.map Token.spelling)
    (events events' : List Event) (p q : Parser) :
    EndAlike ((Parser.restart source events >>= fun _ => rule) p)
      ((Parser.restart source' events' >>= fun _ => rule) q) := by
  obtain ⟨front, hrun, hcoming, hfault, hdepth⟩ := Parser.restart_of_tokenize h events p
  obtain ⟨front', hrun', hcoming', hfault', hdepth'⟩ := Parser.restart_of_tokenize h' events' q
  rw [bind_of_ok hrun, bind_of_ok hrun']
  apply hrule
  rw [← hcoming, ← hcoming'] at hwords
  exact ⟨hwords, hfault, hfault', hdepth.trans hdepth'.symm⟩

/-- Two lists of the same length that end in lists of the same length begin with
lists of the same length. -/
private theorem length_before {us vs us' vs' : List Token}
    (h : (us ++ vs).length = (us' ++ vs').length) (hlater : vs.length = vs'.length) :
    us.length = us'.length := by
  rw [List.length_append, List.length_append] at h
  omega

/-- **Corresponding places.**  Runs over sources with the same words that end
alike have the same outcome. -/
theorem Parse.EndAlike.sameOutcome {answer answer' : Except Error α} {p q : Parser}
    (h : EndAlike (answer, p) (answer', q)) (htokens : tokenize source = .ok ts)
    (htokens' : tokenize source' = .ok ts')
    (hwords : ts.map Token.spelling = ts'.map Token.spelling)
    (hmet : ∀ e, answer = .error (.grammar e) → e.MetIn source p)
    (hmet' : ∀ e, answer' = .error (.grammar e) → e.MetIn source' q) :
    SameOutcome source source' ts ts' answer answer' := by
  cases h with
  | answered a => exact .accepted a
  | @failed _ _ e e' hrule hcause halike =>
      have hmet := hmet e rfl
      have hmet' := hmet' e' rfl
      obtain ⟨rule, cause, position⟩ := e
      obtain ⟨rule', cause', position'⟩ := e'
      obtain rfl : rule = rule' := hrule
      obtain rfl : cause = cause' := hcause
      cases hahead : p.lookahead with
      | none =>
          have hahead' : q.lookahead = none := by
            simpa [hahead] using halike.lookahead.symm
          obtain rfl : position = .past source.toList := hmet.position_of_end (Or.inl hahead)
          obtain rfl : position' = .past source'.toList := hmet'.position_of_end (Or.inl hahead')
          exact .ended
      | some t =>
          obtain ⟨u, hahead', _⟩ := halike.exists_lookahead hahead
          obtain rfl : position = t.position := by
            simpa [Cursor.position, hahead] using hmet.reports.position
          obtain rfl : position' = u.position := by
            simpa [Cursor.position, hahead'] using hmet'.reports.position
          -- The tokens before the two are as many, for those from them on are.
          obtain ⟨before, houtlook⟩ := hmet.outlook
          obtain ⟨before', houtlook'⟩ := hmet'.outlook
          rw [tokenize_eq_ok_iff.mp htokens] at houtlook
          rw [tokenize_eq_ok_iff.mp htokens'] at houtlook'
          have hts : ts = before ++ p.upcoming := congrArg Prod.fst houtlook
          have hts' : ts' = before' ++ q.upcoming := congrArg Prod.fst houtlook'
          have hlength : ts.length = ts'.length := by simpa using congrArg List.length hwords
          have hcoming : p.upcoming.length = q.upcoming.length := by
            simpa using congrArg List.length halike.words
          rw [hts, hts'] at hlength
          have hindex := length_before hlength hcoming
          refine .refused (i := before.length) ?_ ?_
          · simp [hts, Cursor.upcoming_of_lookahead hahead]
          · simp [hts', hindex, Cursor.upcoming_of_lookahead hahead']

/-- **Layout does not matter.**  Two sources whose tokens agree one by one in
kind, value and text have the same outcome, as programs and as single
expressions: both are accepted with the same tree, or both are refused by the
same rule for the same cause, at corresponding tokens or at their ends. -/
theorem outcome_of_words (source source' : String) (ts ts' : List Token)
    (htokens : tokenize source = .ok ts) (htokens' : tokenize source' = .ok ts')
    (hwords : ts.map Token.spelling = ts'.map Token.spelling) :
    SameOutcome source source' ts ts' (parse source) (parse source') ∧
    SameOutcome source source' ts ts' (parseExpression source) (parseExpression source') := by
  constructor
  · have hblind : Parse.Blind (do
        let result ← Parse.program maxNesting
        Parse.note fun _ => .finished result.body.length
        return result) :=
      (Parse.program_blind maxNesting).bind fun result => .note_bind (.pure result)
    have hends : Parse.EndAlike (Parser.unset.parse source) (Parser.unset.parse source') :=
      Parse.restart_alike hblind htokens htokens' hwords _ _ _ _
    exact hends.sameOutcome htokens htokens' hwords (fun _ => parse_metIn) fun _ => parse_metIn
  · have hends : Parse.EndAlike (Parser.unset.parseExpression source)
        (Parser.unset.parseExpression source') :=
      Parse.restart_alike (Parse.soleExpression_blind maxNesting) htokens htokens' hwords _ _ _ _
    exact hends.sameOutcome htokens htokens' hwords (fun _ => parseExpression_metIn)
      fun _ => parseExpression_metIn

/-- The sources differ in their layout only, and both are refused at the second
closing parenthesis. -/
theorem outcome_of_words_comment :
    ∃ ts ts', tokenize "aa=(bb))" = .ok ts ∧ tokenize "/*/aa =\n\t(bb) # note\n)" = .ok ts' ∧
      ts.map Token.spelling = ts'.map Token.spelling ∧
      parse "aa=(bb))" = .error (.grammar
        ⟨.statement, .unexpectedStatement (some .rightParen), ⟨1, 8⟩⟩) ∧
      parse "/*/aa =\n\t(bb) # note\n)" = .error (.grammar
        ⟨.statement, .unexpectedStatement (some .rightParen), ⟨3, 1⟩⟩) ∧
      SameOutcome "aa=(bb))" "/*/aa =\n\t(bb) # note\n)" ts ts'
        (parse "aa=(bb))") (parse "/*/aa =\n\t(bb) # note\n)") := by
  have htokens : tokenize "aa=(bb))" = .ok
      [⟨.identifier, .identifier, .text "aa", "aa", 0, 2, ⟨1, 1⟩⟩,
        ⟨.operator, .assign, .text "=", "=", 2, 3, ⟨1, 3⟩⟩,
        ⟨.delimiter, .leftParen, .text "(", "(", 3, 4, ⟨1, 4⟩⟩,
        ⟨.identifier, .identifier, .text "bb", "bb", 4, 6, ⟨1, 5⟩⟩,
        ⟨.delimiter, .rightParen, .text ")", ")", 6, 7, ⟨1, 7⟩⟩,
        ⟨.delimiter, .rightParen, .text ")", ")", 7, 8, ⟨1, 8⟩⟩] := by
    rw [tokenize_eq_lexemes]
    cbv
  have htokens' : tokenize "/*/aa =\n\t(bb) # note\n)" = .ok
      [⟨.identifier, .identifier, .text "aa", "aa", 3, 5, ⟨1, 4⟩⟩,
        ⟨.operator, .assign, .text "=", "=", 6, 7, ⟨1, 7⟩⟩,
        ⟨.delimiter, .leftParen, .text "(", "(", 9, 10, ⟨2, 2⟩⟩,
        ⟨.identifier, .identifier, .text "bb", "bb", 10, 12, ⟨2, 3⟩⟩,
        ⟨.delimiter, .rightParen, .text ")", ")", 12, 13, ⟨2, 5⟩⟩,
        ⟨.delimiter, .rightParen, .text ")", ")", 21, 22, ⟨3, 1⟩⟩] := by
    rw [tokenize_eq_lexemes]
    cbv
  exact ⟨_, _, htokens, htokens', rfl, by cbv, by cbv,
    (outcome_of_words _ _ _ _ htokens htokens' rfl).1⟩

end TildeLang
