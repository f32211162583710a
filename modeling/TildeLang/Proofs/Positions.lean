import TildeLang.Proofs.Failures
import TildeLang.Proofs.Lossless

/-!
# Lines and columns

The position after a text can be counted without walking along it: the line
from the line ends of the text, and the column from the characters after the
last of them.  A carriage return and the line feed right after it are one line
end, so every place where they stand together is counted once less.

A stream does not count; it carries its position along from one token to the
next.  Since no token ends between a carriage return and its line feed, it
comes to the same.

* `Position.past` — the position after a text, by counting;
* `Position.advance_start` — walking along a text leads there;
* `Position.Marks` — a position is that of a byte offset of a source;
* `positions_count` — the positions of streams, of tokens and of errors.
-/

namespace TildeLang

namespace Text

/-- The number of places where a line feed comes right after a carriage
return. -/
def linePairs (text : List Char) : Nat := text.tails.countP (['\r', '\n'].isPrefixOf ·)

/-- The number of line ends. -/
def lineEnds (text : List Char) : Nat := text.count '\r' + text.count '\n' - linePairs text

/-- The characters after the last line end. -/
def lastLine (text : List Char) : List Char := text.rtakeWhile fun c => !endsLine c

theorem linePairs_cons (c : Char) (text : List Char) :
    linePairs (c :: text)
      = linePairs text + if ['\r', '\n'].isPrefixOf (c :: text) then 1 else 0 := by
  rw [linePairs, List.tails_cons, List.countP_cons, linePairs]

theorem linePairs_pair (text : List Char) :
    linePairs ('\r' :: '\n' :: text) = linePairs text + 1 := by
  simp [linePairs_cons]

/-- Any other character adds no pair. -/
theorem linePairs_cons_of_no_pair {c : Char} {text : List Char}
    (h : ∀ rest, c = '\r' → text = '\n' :: rest → False) :
    linePairs (c :: text) = linePairs text := by
  rw [linePairs_cons, if_neg, Nat.add_zero]
  intro hpair
  obtain ⟨rest, hrest⟩ := List.isPrefixOf_iff_prefix.mp hpair
  obtain ⟨rfl, rfl⟩ := List.cons.inj hrest
  exact h rest rfl rfl

/-- There are no more pairs than carriage returns. -/
theorem linePairs_le (text : List Char) : linePairs text ≤ text.count '\r' := by
  induction text with
  | nil => exact Nat.le_refl 0
  | cons c text ih =>
      rw [linePairs_cons]
      split
      · rename_i hpair
        obtain rfl : '\r' = c := by
          obtain ⟨rest, hrest⟩ := List.isPrefixOf_iff_prefix.mp hpair
          exact (List.cons.inj hrest).1
        rw [List.count_cons_self]
        omega
      · exact ih.trans List.count_le_count_cons

theorem lineEnds_pair (text : List Char) :
    lineEnds ('\r' :: '\n' :: text) = lineEnds text + 1 := by
  have hle := linePairs_le text
  simp only [lineEnds, linePairs_pair, List.count_cons]
  simp
  omega

theorem lineEnds_cons {c : Char} {text : List Char}
    (h : ∀ rest, c = '\r' → text = '\n' :: rest → False) :
    lineEnds (c :: text) = lineEnds text + if endsLine c then 1 else 0 := by
  have hle := linePairs_le text
  rw [lineEnds, linePairs_cons_of_no_pair h]
  by_cases hreturn : c = '\r'
  · simp [lineEnds, endsLine, hreturn]
    omega
  · by_cases hfeed : c = '\n'
    · simp [lineEnds, endsLine, hfeed]
      omega
    · simp [lineEnds, endsLine, hreturn, hfeed]

end Text

namespace Position

/-- The position after a text. -/
def past (text : List Char) : Position :=
  ⟨1 + Text.lineEnds text, 1 + (Text.lastLine text).length⟩

theorem line_nextLine (p : Position) : p.nextLine.line = p.line + 1 := rfl

theorem line_nextColumn (p : Position) : p.nextColumn.line = p.line := rfl

/-- Every line end adds a line. -/
theorem line_advance (p : Position) (text : List Char) :
    (p.advance text).line = p.line + Text.lineEnds text := by
  fun_induction advance p text with
  | case1 p => rfl
  | case2 p rest ih =>
      rw [ih, Text.lineEnds_pair, line_nextLine]
      omega
  | case3 p c rest hpair hc ih =>
      rw [ih, Text.lineEnds_cons hpair, if_pos hc, line_nextLine]
      omega
  | case4 p c rest hpair hc ih =>
      rw [ih, Text.lineEnds_cons hpair, if_neg hc, line_nextColumn]
      omega

/-- A line end leads to the first column. -/
theorem column_advance_lineEnd (p : Position) (text : List Char) {c : Char}
    (hc : Text.endsLine c = true) : (p.advance (text ++ [c])).column = 1 := by
  by_cases hpair : text.getLast? = some '\r' ∧ c = '\n'
  · obtain ⟨hlast, rfl⟩ := hpair
    obtain ⟨front, rfl⟩ := List.getLast?_eq_some_iff.mp hlast
    rw [List.append_assoc, advance_append _ _ _ (by simp)]
    rfl
  · have hcut : text.getLast? = some '\r' → [c].head? ≠ some '\n' := by
      simpa using hpair
    rw [advance_append _ _ _ hcut, advance.eq_3 _ _ _ (by simp), if_pos hc]
    rfl

/-- Any other character leads to the next column. -/
theorem advance_concat (p : Position) (text : List Char) {c : Char}
    (hc : Text.endsLine c = false) : p.advance (text ++ [c]) = (p.advance text).nextColumn := by
  have hcut : text.getLast? = some '\r' → [c].head? ≠ some '\n' := by
    rintro _ hhead
    obtain rfl : c = '\n' := by simpa using hhead
    simp [Text.endsLine] at hc
  rw [advance_append _ _ _ hcut, advance.eq_3 _ _ _ (by simp), if_neg (by simp [hc])]
  rfl

theorem column_advance_start (text : List Char) :
    (start.advance text).column = 1 + (Text.lastLine text).length := by
  induction text using List.reverseRecOn with
  | nil => rfl
  | append_singleton text c ih =>
      cases hc : Text.endsLine c with
      | true =>
          rw [column_advance_lineEnd _ _ hc, Text.lastLine,
            List.rtakeWhile_concat_neg _ _ _ (by simp [hc])]
          rfl
      | false =>
          rw [advance_concat _ _ hc, Text.lastLine,
            List.rtakeWhile_concat_pos _ _ _ (by simp [hc])]
          simp [nextColumn, ih, Text.lastLine]
          omega

/-- **Walking is counting.** -/
theorem advance_start (text : List Char) : start.advance text = past text := by
  calc start.advance text
      = ⟨(start.advance text).line, (start.advance text).column⟩ := rfl
    _ = ⟨start.line + Text.lineEnds text, 1 + (Text.lastLine text).length⟩ := by
        rw [line_advance, column_advance_start]
    _ = past text := rfl

/-- The position is that of a byte offset of a source: the one after the bytes
before it. -/
def Marks (source : String) (offset : Nat) (p : Position) : Prop :=
  ∃ before, Text.Between source 0 offset before ∧ p = past before.toList

end Position

open TokenStream

section Streams

variable {source : String} {s next : TokenStream} {t : Token} {e : LexError}

/-- A stream that is where it says gives the position of its offset. -/
theorem TokenStream.LocatedIn.marks (h : s.LocatedIn source.toList) :
    s.position.Marks source s.offset := by
  obtain ⟨before, hbetween, _, hposition⟩ := h.exists_before
  exact ⟨before, hbetween, hposition.trans (Position.advance_start _)⟩

theorem TokenStream.LocatedIn.marks_token (h : s.LocatedIn source.toList)
    (hscan : s.scan tokenTable = .ok (some (t, next))) : t.position.Marks source t.start := by
  obtain ⟨hstart, _, hposition⟩ := scan_place hscan
  rw [hstart, hposition]
  exact h.marks

theorem TokenStream.LocatedIn.marks_error (h : s.LocatedIn source.toList)
    (hscan : s.scan tokenTable = .error e) : e.position.Marks source e.offset := by
  obtain ⟨hoffset, hposition⟩ := scan_error_place hscan
  rw [hoffset, hposition]
  exact h.marks

/-- A stream that is reached from the front of a source is where it says. -/
theorem TokenStream.Reaches.located (h : (ofText source).Reaches s) :
    s.LocatedIn source.toList :=
  h.locatedIn (.ofText source)

theorem marks_of_lexemes {ts : List Token} (h : lexemes source = .ok ts) (ht : t ∈ ts) :
    t.position.Marks source t.start := by
  obtain ⟨us, s, hpasses, ⟨_, hall⟩ | ⟨e, _, hall⟩⟩ := exists_passes (ofText source)
  · obtain rfl : us = ts := Except.ok.inj (hall.symm.trans h)
    obtain ⟨s₁, s₂, hreaches, hscan⟩ := hpasses.of_mem ht
    exact hreaches.located.marks_token hscan
  · cases hall.symm.trans h

theorem marks_of_lexemes_error (h : lexemes source = .error e) :
    e.position.Marks source e.offset := by
  obtain ⟨ts, s, hpasses, ⟨_, hall⟩ | ⟨e', hscan, hall⟩⟩ := exists_passes (ofText source)
  · cases hall.symm.trans h
  · obtain rfl : e' = e := Except.error.inj (hall.symm.trans h)
    exact hpasses.reaches.located.marks_error hscan

theorem marks_of_tokenize {ts : List Token} (h : tokenize source = .ok ts) (ht : t ∈ ts) :
    t.position.Marks source t.start := by
  have hmem : t ∈ (ofText source).outlook.1 := by
    rw [tokenize_eq_ok_iff.mp h]
    exact ht
  obtain ⟨s', next, hreaches, hscan⟩ := mem_outlook hmem
  exact hreaches.located.marks_token hscan

theorem marks_of_tokenize_error (h : tokenize source = .error e) :
    e.position.Marks source e.offset := by
  obtain ⟨s', hreaches, hscan⟩ := outlook_fault (tokenize_eq_error_iff.mp h)
  exact hreaches.located.marks_error hscan

end Streams

/-- The cause says that the input has ended. -/
def ParseCause.SaysEnd (cause : ParseCause) : Prop :=
  cause.isNesting = false ∧ cause.Names none

/-- A cause that is not the limit names one kind of token, or the end. -/
theorem ParseCause.SaysEnd.eq_none {cause : ParseCause} (h : cause.SaysEnd) {kind : Option Kind}
    (hnames : cause.Names kind) : kind = none := by
  obtain ⟨hlimit, hend⟩ := h
  cases cause with
  | invalidAssignmentTarget found => cases hend
  | nestingTooDeep limit => cases hlimit
  | _ => exact hnames.symm.trans hend

/-- At the end of the input, an error has the position after the last
character. -/
theorem ParseError.MetIn.position_of_end {source : String} {e : ParseError} {p : Parser}
    (h : e.MetIn source p) (hend : p.lookahead = none ∨ e.cause.SaysEnd) :
    e.position = .past source.toList := by
  have hahead : p.lookahead = none := by
    refine hend.elim id fun hsaid => ?_
    exact Option.map_eq_none_iff.mp (hsaid.eq_none h.reports.names)
  rw [h.reports.position, h.within.position_of_end hahead, Position.advance_start]

/-- **Lines and columns.**  After any calls, the position of a stream is that of
its offset, so every token has the position of its start and every lexical
error that of its offset; and an error at the end of the input has the position
after the whole source. -/
theorem positions_count (source : String) :
    (∀ calls s, (ofText source).afterCalls calls = s →
      s.position.Marks source s.offset ∧
      ∀ call,
        (∀ t, (s.ask call).answer = .ok (some t) → t.position.Marks source t.start) ∧
        (∀ e, (s.ask call).answer = .error e → e.position.Marks source e.offset)) ∧
    (∀ ts, lexemes source = .ok ts ∨ tokenize source = .ok ts →
      ∀ t ∈ ts, t.position.Marks source t.start) ∧
    (∀ e, lexemes source = .error e ∨ tokenize source = .error e ∨
        parse source = .error (.lexical e) ∨ parseExpression source = .error (.lexical e) →
      e.position.Marks source e.offset) ∧
    (∀ e, parse source = .error (.grammar e) →
      (Parser.unset.parse source).2.lookahead = none ∨ e.cause.SaysEnd →
        e.position = .past source.toList) ∧
    (∀ e, parseExpression source = .error (.grammar e) →
      (Parser.unset.parseExpression source).2.lookahead = none ∨ e.cause.SaysEnd →
        e.position = .past source.toList) := by
  refine ⟨?_, ?_, ?_, fun e h => (parse_metIn h).position_of_end,
    fun e h => (parseExpression_metIn h).position_of_end⟩
  · rintro calls s rfl
    have hreaches := (ofText source).afterCalls_reaches calls
    refine ⟨hreaches.located.marks, fun call => ⟨?_, ?_⟩⟩
    · intro t hanswer
      obtain ⟨s', hreaches', hscan⟩ := ask_token hanswer
      exact (hreaches.trans hreaches').located.marks_token hscan
    · intro e hanswer
      obtain ⟨hreaches', hscan⟩ := ask_error hanswer
      exact (hreaches.trans hreaches').located.marks_error hscan
  · intro ts hts t ht
    exact hts.elim (marks_of_lexemes · ht) (marks_of_tokenize · ht)
  · intro e he
    rcases he with hlexemes | htokens | hprogram | hexpression
    · exact marks_of_lexemes_error hlexemes
    · exact marks_of_tokenize_error htokens
    · exact marks_of_tokenize_error (tokenize_of_parse_lexical hprogram)
    · exact marks_of_tokenize_error (tokenize_of_parseExpression_lexical hexpression)

/-- The string has a line end of two characters in it, and what comes after it
is in the second line: a sign, a tilde, and the end of the other source. -/
theorem positions_count_string :
    (∃ t, (((ofText "aa = \"\r\n\" + ~").afterCalls [.token, .lexeme, .token, .token]).ask
        .token).answer = .ok (some t) ∧
      t.position = ⟨2, 3⟩ ∧ t.position.Marks "aa = \"\r\n\" + ~" t.start) ∧
    (∃ e, parse "aa = \"\r\n\" + ~" = .error (.lexical e) ∧
      e.position = ⟨2, 5⟩ ∧ e.position.Marks "aa = \"\r\n\" + ~" e.offset) ∧
    (∃ e, parse "aa = \"\r\n\" +" = .error (.grammar e) ∧
      e.position = ⟨2, 4⟩ ∧ e.position = .past "aa = \"\r\n\" +".toList) := by
  refine ⟨?_, ?_, ?_⟩
  · have hanswer : (((ofText "aa = \"\r\n\" + ~").afterCalls
        [.token, .lexeme, .token, .token]).ask .token).answer
        = .ok (some ⟨.operator, .add, .text "+", "+", 10, 11, ⟨2, 3⟩⟩) := by cbv
    exact ⟨_, hanswer, rfl, (((positions_count _).1 _ _ rfl).2 .token).1 _ hanswer⟩
  · have hparse : parse "aa = \"\r\n\" + ~"
        = .error (.lexical ⟨.unexpectedCharacter '~', 12, ⟨2, 5⟩⟩) := by cbv
    exact ⟨_, hparse, rfl, (positions_count _).2.2.1 _ (Or.inr (Or.inr (Or.inl hparse)))⟩
  · have hparse : parse "aa = \"\r\n\" +" = .error (.grammar
        ⟨.primaryExpression, .unexpectedPrimary none, ⟨2, 4⟩⟩) := by cbv
    exact ⟨_, hparse, rfl, (positions_count _).2.2.2.1 _ hparse (Or.inr ⟨rfl, rfl⟩)⟩

end TildeLang
