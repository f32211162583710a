import TildeLang.Error
import TildeLang.Token.Table

/-!
# Token streams

A **token stream** is what is left of a source, with the place that reading
has reached.  `scan` reads one token under a table of rows; nothing else moves
a stream.  Two walks are built on it:

* `nextLexeme` gives every token in turn, trivia included;
* `nextToken` passes over trivia and gives the next token that is none.

Both answer with a `Fetch`: the tokens scanned on the way, the answer, and the
stream that is left, also when the answer is an error.  `lexemes` and
`tokenize` run the two walks to the end of a source.

* `after_position` — a line end counts for as much as its characters;
* `scan_rest` — a scanned token is a non-empty piece from the front of what
  is left;
* `length_scan_lt`, `length_nextToken_lt` — reading makes progress, which is
  why every walk ends.
-/

namespace TildeLang

/-- What is left of a source, and the place that reading has reached. -/
structure TokenStream where
  rest : List Char
  offset : Nat
  position : Position
deriving DecidableEq, Repr

/-- The outcome of asking a stream for a token: every token scanned on the
way, the answer (`none` at the end of the source), and the stream left. -/
structure Fetch where
  scanned : List Token
  answer : Except LexError (Option Token)
  stream : TokenStream

/-- The same outcome, reached after passing one more token. -/
def Fetch.passing (f : Fetch) (t : Token) : Fetch :=
  ⟨t :: f.scanned, f.answer, f.stream⟩

namespace TokenStream

/-- The stream of a whole source. -/
def ofText (source : String) : TokenStream :=
  ⟨source.toList, 0, Position.start⟩

/-- A stream that has been given no source, and so has no line yet. -/
def unset : TokenStream :=
  ⟨[], 0, ⟨0, 0⟩⟩

/-- Whether the whole source has been read. -/
def isAtEnd (s : TokenStream) : Bool := s.rest.isEmpty

/-- The token that a row reads from a piece of text at the front of a stream. -/
def tokenAt (s : TokenStream) (row : Row) (taken : List Char) (value : Value) : Token where
  category := row.category
  kind := row.kind
  value := value
  raw := String.ofList taken
  start := s.offset
  stop := s.offset + Text.byteLength taken
  position := s.position

/-- The stream after a piece of text that a row has taken.  A line end starts
the next line; every other piece is crossed character by character, since it may
have line ends inside. -/
def after (s : TokenStream) (row : Row) (taken rest : List Char) : TokenStream where
  rest := rest
  offset := s.offset + Text.byteLength taken
  position := if row.kind.isLineEnd then s.position.nextLine else s.position.advance taken

/-- Reads one token: the first row that takes something decides.  At the end
of the source there is nothing to read. -/
def scan (table : List Row) (s : TokenStream) :
    Except LexError (Option (Token × TokenStream)) :=
  match s.rest with
  | [] => .ok none
  | c :: _ =>
      match firstMatch? table s.rest with
      | none => .error ⟨.unexpectedCharacter c, s.offset, s.position⟩
      | some (row, taken, rest) =>
          match row.reading.value? taken with
          | none => .error ⟨.numberOutOfRange (String.ofList taken), s.offset, s.position⟩
          | some value => .ok (some (s.tokenAt row taken value, s.after row taken rest))

/-- **A token is a piece from the front.**  What `scan` reads is the text that
some row of the table takes, and the stream left starts right after it. -/
theorem scan_eq_some {table : List Row} {s next : TokenStream} {t : Token}
    (h : s.scan table = .ok (some (t, next))) :
    ∃ row taken rest value,
      row ∈ table ∧ row.split s.rest = some (taken, rest) ∧
      row.reading.value? taken = some value ∧
      t = s.tokenAt row taken value ∧ next = s.after row taken rest := by
  unfold scan at h
  split at h
  · simp at h
  · split at h
    · simp at h
    · rename_i row taken rest hm
      split at h
      · simp at h
      · rename_i value hv
        simp only [Except.ok.injEq, Option.some.injEq, Prod.mk.injEq] at h
        obtain ⟨hmem, hsplit⟩ := firstMatch?_mem hm
        exact ⟨row, taken, rest, value, hmem, hsplit, hv, h.1.symm, h.2.symm⟩

/-- **Both ways of counting agree.**  The row of line ends takes one line end at a
time, so the position after any piece is that of crossing its characters. -/
theorem after_position {row : Row} {whole taken rest : List Char} (hrow : row ∈ tokenTable)
    (hsplit : row.split whole = some (taken, rest)) (s : TokenStream) :
    (s.after row taken rest).position = s.position.advance taken := by
  have hrows : ∀ r ∈ tokenTable, r.kind.isLineEnd = true → r.shape = .lineEnd := by decide
  have hshape := (Row.split_eq_some_iff.mp hsplit).1
  cases hkind : row.kind.isLineEnd with
  | false => simp [after, hkind]
  | true =>
      rw [hrows row hrow hkind] at hshape
      simp [after, hkind, Shape.advance_lineEnd hshape]

/-- The text of a scanned token is what the stream has lost. -/
theorem scan_rest {table : List Row} {s next : TokenStream} {t : Token}
    (h : s.scan table = .ok (some (t, next))) :
    s.rest = t.raw.toList ++ next.rest ∧ t.raw.toList ≠ [] := by
  obtain ⟨row, taken, rest, value, _, hsplit, _, rfl, rfl⟩ := scan_eq_some h
  simp only [tokenAt, after, String.toList_ofList]
  exact ⟨Row.split_append hsplit, Row.split_ne_nil hsplit⟩

/-- Reading a token leaves less to read. -/
theorem length_scan_lt {table : List Row} {s next : TokenStream} {t : Token}
    (h : s.scan table = .ok (some (t, next))) : next.rest.length < s.rest.length := by
  obtain ⟨happ, hne⟩ := scan_rest h
  have hpos : 0 < t.raw.toList.length := List.length_pos_iff.2 hne
  have hlen := congrArg List.length happ
  rw [List.length_append] at hlen
  omega

/-- The next token, trivia included. -/
def nextLexeme (s : TokenStream) : Fetch :=
  match s.scan tokenTable with
  | .error e => ⟨[], .error e, s⟩
  | .ok none => ⟨[], .ok none, s⟩
  | .ok (some (t, next)) => ⟨[t], .ok (some t), next⟩

/-- The next token that is no trivia.  Trivia before an error have been
passed when the error is given. -/
def nextToken (s : TokenStream) : Fetch :=
  match _hs : s.scan tokenTable with
  | .error e => ⟨[], .error e, s⟩
  | .ok none => ⟨[], .ok none, s⟩
  | .ok (some (t, next)) =>
      if t.isTrivia then next.nextToken.passing t else ⟨[t], .ok (some t), next⟩
termination_by s.rest.length
decreasing_by exact length_scan_lt ‹_›

/-- Finding a token leaves less to read. -/
theorem length_nextToken_lt {s next : TokenStream} {scanned : List Token} {t : Token}
    (h : s.nextToken = ⟨scanned, .ok (some t), next⟩) :
    next.rest.length < s.rest.length := by
  fun_induction nextToken s generalizing scanned with
  | case1 s e hs => simp at h
  | case2 s hs => simp at h
  | case3 s t' middle hs htrivia ih =>
      obtain ⟨_, hanswer, hstream⟩ := Fetch.mk.inj h
      have hlater : middle.nextToken
          = ⟨middle.nextToken.scanned, .ok (some t), next⟩ := by
        rw [← hanswer, ← hstream]
      exact Nat.lt_trans (ih hlater) (length_scan_lt hs)
  | case4 s t' middle hs htrivia =>
      obtain ⟨_, _, rfl⟩ := Fetch.mk.inj h
      exact length_scan_lt hs

/-- Looking for a token never adds to what is left. -/
theorem length_nextToken_le {s next : TokenStream} {scanned : List Token}
    {answer : Except LexError (Option Token)} (h : s.nextToken = ⟨scanned, answer, next⟩) :
    next.rest.length ≤ s.rest.length := by
  fun_induction nextToken s generalizing scanned with
  | case1 s e hs =>
      obtain ⟨_, _, rfl⟩ := Fetch.mk.inj h
      exact Nat.le_refl _
  | case2 s hs =>
      obtain ⟨_, _, rfl⟩ := Fetch.mk.inj h
      exact Nat.le_refl _
  | case3 s t' middle hs htrivia ih =>
      obtain ⟨_, hanswer, hstream⟩ := Fetch.mk.inj h
      have hlater : middle.nextToken
          = ⟨middle.nextToken.scanned, answer, next⟩ := by
        rw [← hanswer, ← hstream]
      exact Nat.le_trans (ih hlater) (Nat.le_of_lt (length_scan_lt hs))
  | case4 s t' middle hs htrivia =>
      obtain ⟨_, _, rfl⟩ := Fetch.mk.inj h
      exact Nat.le_of_lt (length_scan_lt hs)

/-- All tokens of a stream under a table, trivia included. -/
def lexemesBy (table : List Row) (s : TokenStream) : Except LexError (List Token) :=
  match _hs : s.scan table with
  | .error e => .error e
  | .ok none => .ok []
  | .ok (some (t, next)) => (next.lexemesBy table).map (t :: ·)
termination_by s.rest.length
decreasing_by exact length_scan_lt ‹_›

/-- All tokens of a stream that are no trivia, after all the tokens that were
scanned to find them. -/
def tokens (s : TokenStream) : List Token × Except LexError (List Token) :=
  match _hs : s.nextToken with
  | ⟨scanned, .error e, _⟩ => (scanned, .error e)
  | ⟨scanned, .ok none, _⟩ => (scanned, .ok [])
  | ⟨scanned, .ok (some t), next⟩ =>
      let (more, found) := next.tokens
      (scanned ++ more, found.map (t :: ·))
termination_by s.rest.length
decreasing_by exact length_nextToken_lt ‹_›

end TokenStream

/-- All tokens of a source, trivia included. -/
def lexemes (source : String) : Except LexError (List Token) :=
  (TokenStream.ofText source).lexemesBy tokenTable

/-- All tokens of a source that are no trivia. -/
def tokenize (source : String) : Except LexError (List Token) :=
  (TokenStream.ofText source).tokens.2

end TildeLang
