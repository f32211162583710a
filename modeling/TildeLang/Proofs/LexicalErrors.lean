import Mathlib
import TildeLang.Proofs.Neighbours
import TildeLang.Proofs.TokenValues

/-!
# Where no token can be read

At a place of a source where something is left, reading a token fails for one of
two reasons.  The text may be **unreadable**: a single character of names, a quote
that is not closed, or a character with which no token begins.  Or it may begin
with digits that denote a number which is **too large**.  Everywhere else a token
is read.

* `Shape.takesAlone` — the shapes that take something wherever their character
  comes;
* `length_of_name` — a row that begins with a character of names takes two of them
  at least;
* `firstMatch?_eq_none_iff_unreadable` — no row takes anything exactly where the
  text is unreadable;
* `value?_eq_none_iff` — a piece that is taken has no value exactly if it is a
  number that is too large;
* `scan_cases` — reading a token fails for one of the two reasons, or gives one;
* `lexical_errors` — the errors, at every place that calls can reach.
-/

namespace TildeLang

namespace Text

/-- The two quotes. -/
def quotes : List Char := ['"', '\'']

/-- The signs that are tokens, begin longer tokens or begin comments. -/
def signs : List Char :=
  ['#', '/', '+', '-', '*', '%', '^', '=', '>', '<', '&', '|', '!', ':', '.', ',', '\x7b',
   '\x7d', '(', ')', '?']

/-- No token begins with the character where the other text comes right behind
it. -/
inductive Unreadable : Char → List Char → Prop
  /-- A character of names by itself. -/
  | single {c : Char} {behind : List Char} (hname : Alphabet.name.holds c = true)
      (hstops : Stops Alphabet.name.holds behind) : Unreadable c behind
  /-- A quote that does not come again. -/
  | unclosed {c : Char} {behind : List Char} (hquote : c ∈ quotes) (hopen : c ∉ behind) :
      Unreadable c behind
  /-- A character that is in no token, quoted texts and comments apart. -/
  | foreign {c : Char} {behind : List Char} (hspace : isSpace c = false)
      (hdigit : c.isDigit = false) (hname : Alphabet.name.holds c = false)
      (hquote : c ∉ quotes) (hsign : c ∉ signs) : Unreadable c behind

/-- The character is a digit, and with the digits that come right behind it denotes
a number that does not fit in 64 bits. -/
def TooLarge (c : Char) (behind : List Char) : Prop :=
  c.isDigit = true ∧ 2 ^ 64 ≤ numeral ((c :: behind).takeWhile Char.isDigit)

/-- Zeros in front do not change the number that digits denote. -/
theorem numeral_dropWhile_zero (digits : List Char) :
    numeral (digits.dropWhile (· == '0')) = numeral digits := by
  induction digits with
  | nil => rfl
  | cons c digits ih =>
      by_cases hzero : c = '0'
      · subst hzero
        rw [List.dropWhile_cons_of_pos (by decide), ih]
        simp [numeral, Nat.ofDigits_append]
      · rw [List.dropWhile_cons_of_neg (by simpa using hzero)]

end Text

open Text

/-! ### Which rows take something -/

/-- Whether a shape takes something from every text that begins with a
character. -/
def Shape.takesAlone : Shape → Char → Bool
  | fixed text, c => text == [c]
  | lineEnd, c => endsLine c
  | run least alphabet, c => least == 1 && alphabet.holds c
  | restOfLine mark, c => c == mark
  | word _, _ => false
  | enclosed _, _ => false

section Rows

variable {row : Row} {c : Char} {behind taken rest : List Char}

theorem firstMatch?_ne_none (hrow : row ∈ tokenTable) {whole : List Char}
    (hsplit : row.split whole = some (taken, rest)) : firstMatch? tokenTable whole ≠ none := by
  intro hnone
  rw [firstMatch?_eq_none_iff.mp hnone row hrow] at hsplit
  cases hsplit

theorem Row.exists_split_of_takesAlone (h : row.shape.takesAlone c = true)
    (behind : List Char) : ∃ taken rest, row.split (c :: behind) = some (taken, rest) := by
  suffices hshape : ∃ more rest, row.shape.split (c :: behind) = some (c :: more, rest) by
    obtain ⟨more, rest, hshape⟩ := hshape
    exact ⟨c :: more, rest, Row.split_eq_some_iff.mpr ⟨hshape, List.cons_ne_nil _ _⟩⟩
  cases hshape : row.shape with
  | fixed text =>
      obtain rfl : text = [c] := by simpa [hshape, Shape.takesAlone] using h
      exact ⟨[], behind, Shape.splitFixed_eq_some_iff.mpr ⟨rfl, rfl⟩⟩
  | lineEnd =>
      have hends : endsLine c = true := by simpa [hshape, Shape.takesAlone] using h
      simp only [Shape.split]
      unfold Shape.splitLineEnd
      split
      · cases ‹c :: behind = []›
      · obtain ⟨rfl, rfl⟩ := List.cons.inj ‹c :: behind = _›
        exact ⟨_, _, rfl⟩
      · obtain ⟨rfl, rfl⟩ := List.cons.inj ‹c :: behind = _›
        rw [if_pos hends]
        exact ⟨_, _, rfl⟩
  | run least alphabet =>
      obtain ⟨rfl, hholds⟩ : least = 1 ∧ alphabet.holds c = true := by
        simpa [hshape, Shape.takesAlone] using h
      refine ⟨behind.takeWhile alphabet.holds, behind.dropWhile alphabet.holds, ?_⟩
      simp [Shape.split, Shape.splitRun, hholds]
  | restOfLine mark =>
      obtain rfl : c = mark := by simpa [hshape, Shape.takesAlone] using h
      exact ⟨behind.takeWhile (!endsLine ·), behind.dropWhile (!endsLine ·),
        by simp [Shape.split, Shape.splitRestOfLine]⟩
  | word text => simp [hshape, Shape.takesAlone] at h
  | enclosed mark => simp [hshape, Shape.takesAlone] at h

/-- White space, digits and signs are never unreadable. -/
theorem exists_takesAlone (h : isSpace c = true ∨ c.isDigit = true ∨ c ∈ signs) :
    ∃ row ∈ tokenTable, row.shape.takesAlone c = true := by
  have hsigns : (signs.all fun c => tokenTable.any fun row => row.shape.takesAlone c) = true := by
    decide +kernel
  rcases h with hspace | hdigit | hsign
  · rcases Bool.or_eq_true_iff.mp hspace with hblank | hends
    · obtain ⟨row, hrow, hshape⟩ : ∃ row ∈ tokenTable, row.shape = .run 1 .blank := by decide
      exact ⟨row, hrow, by simpa [hshape, Shape.takesAlone, Alphabet.holds] using hblank⟩
    · obtain ⟨row, hrow, hshape⟩ : ∃ row ∈ tokenTable, row.shape = .lineEnd := by decide
      exact ⟨row, hrow, by simpa [hshape, Shape.takesAlone] using hends⟩
  · obtain ⟨row, hrow, hshape⟩ : ∃ row ∈ tokenTable, row.shape = .run 1 .digit := by decide
    exact ⟨row, hrow, by simpa [hshape, Shape.takesAlone, Alphabet.holds] using hdigit⟩
  · exact List.any_eq_true.mp (List.all_eq_true.mp hsigns c hsign)

/-- Every token begins with white space, a digit, a character of names, a quote or a
sign. -/
theorem begins_cases (hrow : row ∈ tokenTable) (h : row.shape.begins c = true) :
    isSpace c = true ∨ c.isDigit = true ∨ Alphabet.name.holds c = true ∨ c ∈ quotes ∨
      c ∈ signs := by
  have hmarks : ∀ row ∈ tokenTable, row.shape.marks.all (fun c => isSpace c || c.isDigit ||
      Alphabet.name.holds c || quotes.contains c || signs.contains c) = true := by decide +kernel
  rcases Shape.begins_eq_true h with hmark | ⟨least, alphabet, _, hholds⟩
  · have hinitial := List.all_eq_true.mp (hmarks row hrow) c hmark
    simpa [or_assoc] using hinitial
  · cases alphabet with
    | blank => exact .inl (by simp [isSpace, show isBlank c = true from hholds])
    | digit => exact .inr (.inl hholds)
    | name => exact .inr (.inr (.inl hholds))

/-- **Names.**  A row that begins with a character of names takes two of them at
least. -/
theorem length_of_name (hname : Alphabet.name.holds c = true) (hrow : row ∈ tokenTable)
    (hsplit : row.split (c :: behind) = some (taken, rest)) :
    2 ≤ taken.length ∧ ∀ d ∈ taken, Alphabet.name.holds d = true := by
  have hrows := Text.of_ascii (fun c => Alphabet.name.holds c = true → ∀ row ∈ tokenTable,
      row.shape.begins c = true → row.shape = .run 2 .name ∨
        ∃ word ∈ leadingWords ++ reservedWords, row.shape = .fixed word ∨ row.shape = .word word)
    (by decide +kernel) (Alphabet.toNat_lt_of_name hname) hname row hrow
    (Row.begins_of_split hsplit)
  have hwords : ∀ word ∈ leadingWords ++ reservedWords,
      2 ≤ word.length ∧ word.all Alphabet.name.holds = true := by decide
  have hshape := (Row.split_eq_some_iff.mp hsplit).1
  rcases hrows with hrun | ⟨word, hword, hfixed | hends⟩
  · rw [hrun] at hshape
    obtain ⟨hlength, hholds, _⟩ := Shape.splitRun_eq_some hshape
    exact ⟨hlength, hholds⟩
  · rw [hfixed] at hshape
    obtain ⟨rfl, _⟩ := Shape.splitFixed_eq_some_iff.mp hshape
    exact (hwords _ hword).imp_right List.all_eq_true.mp
  · rw [hends] at hshape
    obtain ⟨rfl, _⟩ := Shape.splitWord_eq_some_iff.mp hshape
    exact (hwords _ hword).imp_right List.all_eq_true.mp

/-- A character of names is unreadable exactly if no other comes right behind
it. -/
theorem firstMatch?_name_eq_none_iff (hname : Alphabet.name.holds c = true) :
    firstMatch? tokenTable (c :: behind) = none ↔ Stops Alphabet.name.holds behind := by
  constructor
  · intro hnone d hd
    obtain ⟨more, rfl⟩ := List.head?_eq_some_iff.mp hd
    by_contra hstill
    have hholds : Alphabet.name.holds d = true := by simpa using hstill
    obtain ⟨row, hrow, hshape⟩ : ∃ row ∈ tokenTable, row.shape = .run 2 .name := by decide
    have hrun : row.split (c :: d :: more)
        = some (c :: d :: more.takeWhile Alphabet.name.holds,
            more.dropWhile Alphabet.name.holds) := by
      refine Row.split_eq_some_iff.mpr ⟨?_, List.cons_ne_nil _ _⟩
      simp [hshape, Shape.split, Shape.splitRun, hname, hholds]
    exact firstMatch?_ne_none hrow hrun hnone
  · intro hstops
    refine firstMatch?_eq_none_iff.mpr fun row hrow => ?_
    cases hsplit : row.split (c :: behind) with
    | none => rfl
    | some found =>
        obtain ⟨taken, rest⟩ := found
        obtain ⟨hlength, hholds⟩ := length_of_name hname hrow hsplit
        have happend := Row.split_append hsplit
        rcases taken with _ | ⟨first, _ | ⟨d, more⟩⟩
        · simp at hlength
        · simp at hlength
        · have hbehind : behind = d :: (more ++ rest) := (List.cons.inj happend).2
          have hstop := hstops d (by rw [hbehind]; rfl)
          simp [hholds d (by simp)] at hstop

theorem Row.split_enclosed_eq_none_iff {mark : Char} (hshape : row.shape = .enclosed mark) :
    row.split (mark :: behind) = none ↔ mark ∉ behind := by
  constructor
  · intro hnone hmem
    obtain ⟨inner, after, rfl, hinner⟩ := List.eq_append_cons_of_mem hmem
    have hsplit : row.split (mark :: (inner ++ mark :: after))
        = some (mark :: (inner ++ [mark]), after) := by
      refine Row.split_eq_some_iff.mpr ⟨?_, List.cons_ne_nil _ _⟩
      rw [hshape]
      exact Shape.splitEnclosed_of_not_mem hinner after
    cases hnone.symm.trans hsplit
  · intro hopen
    cases hsplit : row.split (mark :: behind) with
    | none => rfl
    | some found =>
        obtain ⟨taken, rest⟩ := found
        have hwhole := Row.split_append hsplit
        have henclosed := (Row.split_eq_some_iff.mp hsplit).1
        rw [hshape, Shape.split] at henclosed
        obtain ⟨inner, rfl, _⟩ := Shape.splitEnclosed_eq_some henclosed
        have hbehind : behind = inner ++ [mark] ++ rest := (List.cons.inj hwhole).2
        exact absurd (by simp [hbehind]) hopen

/-- A quote is unreadable exactly if it does not come again. -/
theorem firstMatch?_quote_eq_none_iff (hquote : c ∈ quotes) :
    firstMatch? tokenTable (c :: behind) = none ↔ c ∉ behind := by
  obtain ⟨row, hshape, hsole⟩ : ∃ row : Row, row.shape = .enclosed c ∧
      tokenTable.filter (fun row => row.shape.begins c) = [row] := by
    rcases List.mem_pair.mp hquote with rfl | rfl
    · exact ⟨⟨.literal, .string, .enclosed '"', .unquoted⟩, rfl, by decide⟩
    · exact ⟨⟨.literal, .char, .enclosed '\'', .unquoted⟩, rfl, by decide⟩
  rw [firstMatch?_filter, hsole, firstMatch?_eq_none_iff, List.forall_mem_singleton,
    Row.split_enclosed_eq_none_iff hshape]

/-- **Unreadable texts.**  No row takes anything exactly where a text is
unreadable. -/
theorem firstMatch?_eq_none_iff_unreadable :
    firstMatch? tokenTable (c :: behind) = none ↔ Unreadable c behind := by
  constructor
  · intro hnone
    have halone : ¬(isSpace c = true ∨ c.isDigit = true ∨ c ∈ signs) := by
      intro hclass
      obtain ⟨row, hrow, htakes⟩ := exists_takesAlone hclass
      obtain ⟨taken, rest, hsplit⟩ := Row.exists_split_of_takesAlone htakes behind
      exact firstMatch?_ne_none hrow hsplit hnone
    by_cases hname : Alphabet.name.holds c = true
    · exact .single hname ((firstMatch?_name_eq_none_iff hname).mp hnone)
    · by_cases hquote : c ∈ quotes
      · exact .unclosed hquote ((firstMatch?_quote_eq_none_iff hquote).mp hnone)
      · simp only [not_or, Bool.not_eq_true] at halone hname
        exact .foreign halone.1 halone.2.1 hname hquote halone.2.2
  · intro h
    cases h with
    | single hname hstops => exact (firstMatch?_name_eq_none_iff hname).mpr hstops
    | unclosed hquote hopen => exact (firstMatch?_quote_eq_none_iff hquote).mpr hopen
    | foreign hspace hdigit hname hquote hsign =>
        refine firstMatch?_eq_none_iff.mpr fun row hrow => Row.split_eq_none ?_ behind
        refine Bool.eq_false_iff.mpr fun hbegins => ?_
        have hclass := begins_cases hrow hbegins
        simp [hspace, hdigit, hname, hquote, hsign] at hclass

/-! ### Which pieces have a value -/

/-- A digit is taken with all digits that come right behind it. -/
theorem firstMatch?_digit (hdigit : c.isDigit = true) (behind : List Char) :
    firstMatch? tokenTable (c :: behind)
      = some (⟨.literal, .number, .run 1 .digit, .number⟩, c :: behind.takeWhile Char.isDigit,
          behind.dropWhile Char.isDigit) := by
  have hsplit : Shape.splitRun 1 Char.isDigit (c :: behind)
      = some (c :: behind.takeWhile Char.isDigit, behind.dropWhile Char.isDigit) := by
    simp [Shape.splitRun, hdigit]
  refine firstMatch?_of_filter (filter_begins_of_digit hdigit) ?_
  exact Row.split_eq_some_iff.mpr ⟨hsplit, List.cons_ne_nil _ _⟩

/-- **Numbers that are too large.**  A piece that is taken has no value exactly if it
is such a number. -/
theorem value?_eq_none_iff (h : firstMatch? tokenTable (c :: behind) = some (row, taken, rest)) :
    row.reading.value? taken = none ↔ TooLarge c behind := by
  by_cases hdigit : c.isDigit = true
  · rw [firstMatch?_digit hdigit] at h
    cases h
    have hrun : (c :: behind).takeWhile Char.isDigit = c :: behind.takeWhile Char.isDigit :=
      List.takeWhile_cons_of_pos hdigit
    have hdigits : ∀ d ∈ c :: behind.takeWhile Char.isDigit, d.isDigit = true := by
      rw [← hrun]
      exact fun d hd => List.mem_takeWhile_imp hd
    rw [Reading.value?, Option.map_eq_none_iff,
      Reading.readNumber?_eq_none_iff (List.cons_ne_nil _ _) hdigits, TooLarge, hrun]
    simp [hdigit]
  · have hvalue : row.reading.value? taken ≠ none := by
      obtain ⟨hrow, hsplit⟩ := firstMatch?_mem h
      have hbegins := Row.begins_of_split hsplit
      rcases Row.layout row hrow with ⟨_, hshape, _⟩ | ⟨_, _, hreading⟩ | ⟨_, _, hreading⟩ |
        ⟨_, _, hreading⟩ | ⟨_, _, hreading⟩ | ⟨_, hreading⟩
      · rw [hshape] at hbegins
        exact absurd hbegins hdigit
      all_goals simp [hreading, Reading.value?]
    simp [TooLarge, hdigit, hvalue]

end Rows

/-! ### Reading a token -/

namespace TokenStream

variable {s : TokenStream} {c : Char} {behind : List Char}

/-- **Reading a token fails for one of two reasons**, and never for both. -/
theorem scan_cases (hrest : s.rest = c :: behind) :
    (Unreadable c behind ∧ ¬TooLarge c behind ∧
      s.scan tokenTable = .error ⟨.unexpectedCharacter c, s.offset, s.position⟩) ∨
    (¬Unreadable c behind ∧ TooLarge c behind ∧
      s.scan tokenTable = .error ⟨.numberOutOfRange
        (String.ofList (c :: behind.takeWhile Char.isDigit)), s.offset, s.position⟩) ∨
    (¬Unreadable c behind ∧ ¬TooLarge c behind ∧
      ∃ t next, s.scan tokenTable = .ok (some (t, next))) := by
  rw [← firstMatch?_eq_none_iff_unreadable]
  unfold scan
  rw [hrest]
  cases hmatch : firstMatch? tokenTable (c :: behind) with
  | none =>
      refine .inl ⟨rfl, ?_, rfl⟩
      intro hlarge
      cases hmatch.symm.trans (firstMatch?_digit hlarge.1 behind)
  | some found =>
      obtain ⟨row, taken, rest⟩ := found
      cases hvalue : row.reading.value? taken with
      | none =>
          have hlarge := (value?_eq_none_iff hmatch).mp hvalue
          cases hmatch.symm.trans (firstMatch?_digit hlarge.1 behind)
          exact .inr (.inl ⟨by simp, hlarge, by simp [hvalue]⟩)
      | some value =>
          refine .inr (.inr ⟨by simp, ?_, by simp [hvalue]⟩)
          rw [← value?_eq_none_iff hmatch, hvalue]
          simp

/-- The character at which reading fails is the first one that is left. -/
theorem scan_character {e : LexError} (hrest : s.rest = c :: behind)
    (h : s.scan tokenTable = .error e) : e.character = c := by
  rcases scan_cases hrest with ⟨_, _, hscan⟩ | ⟨_, _, hscan⟩ | ⟨_, _, t, next, hscan⟩
  · cases h.symm.trans hscan
    rfl
  · cases h.symm.trans hscan
    simp [LexError.character]
  · cases h.symm.trans hscan

/-- Asking for a lexeme fails where scanning does, and with the same error. -/
theorem nextLexeme_error_iff {e : LexError} :
    s.nextLexeme.answer = .error e ↔ s.scan tokenTable = .error e := by
  unfold nextLexeme
  split <;> simp_all

/-- **What asking for a lexeme answers** where something is left. -/
theorem nextLexeme_outcome (hrest : s.rest = c :: behind) :
    ((∃ e d, s.nextLexeme.answer = .error e ∧ e.cause = .unexpectedCharacter d) ↔
      Unreadable c behind) ∧
    ((∃ e lexeme, s.nextLexeme.answer = .error e ∧ e.cause = .numberOutOfRange lexeme) ↔
      TooLarge c behind) ∧
    ((∃ t, s.nextLexeme.answer = .ok (some t)) ↔
      ¬Unreadable c behind ∧ ¬TooLarge c behind) := by
  rcases scan_cases hrest with ⟨hunreadable, hlarge, hscan⟩ | ⟨hunreadable, hlarge, hscan⟩ |
    ⟨hunreadable, hlarge, t, next, hscan⟩
  · simp [nextLexeme_of_error hscan, hunreadable, hlarge]
  · simp [nextLexeme_of_error hscan, hunreadable, hlarge]
  · simp [nextLexeme_of_token hscan, hunreadable, hlarge]

/-- Where a stream stands in a source, the source has the first character that is
left. -/
theorem LocatedIn.between_character {source : String} (h : s.LocatedIn source.toList)
    (hrest : s.rest = c :: behind) :
    Between source s.offset (s.offset + c.utf8Size) (String.singleton c) := by
  obtain ⟨before, hsource, hoffset, _, _⟩ := h
  rw [hrest] at hsource
  have hbetween : Between source (byteLength before) (byteLength before + byteLength [c])
      (String.ofList [c]) := .of_split hsource
  have hsingleton : String.singleton c = String.ofList [c] := by
    rw [← String.toList_inj]
    simp
  rw [hoffset, hsingleton]
  simpa only [byteLength_cons, byteLength_nil, Nat.add_zero] using hbetween

end TokenStream

open TokenStream

/-- **Lexical errors.**  Wherever calls can lead in a source, and something is left of
it, asking for a lexeme fails with an unexpected character exactly if the text that
is left is unreadable, and with a number that is out of range exactly if it begins
with one that is too large, zeros in front not counted; otherwise a lexeme is
given.  An error has the offset of the stream, and its character is the one that
the source has there. -/
theorem lexical_errors (source : String) (calls : List Call) (s : TokenStream)
    (hs : (ofText source).afterCalls calls = s) (c : Char) (behind : List Char)
    (hrest : s.rest = c :: behind) :
    ((∃ e d, s.nextLexeme.answer = .error e ∧ e.cause = .unexpectedCharacter d) ↔
      Unreadable c behind) ∧
    ((∃ e lexeme, s.nextLexeme.answer = .error e ∧ e.cause = .numberOutOfRange lexeme) ↔
      TooLarge c behind) ∧
    (TooLarge c behind ↔ c.isDigit = true ∧
      2 ^ 64 ≤ numeral (((c :: behind).takeWhile Char.isDigit).dropWhile (· == '0'))) ∧
    ((∃ t, s.nextLexeme.answer = .ok (some t)) ↔
      ¬Unreadable c behind ∧ ¬TooLarge c behind) ∧
    (∀ e, s.nextLexeme.answer = .error e → e.offset = s.offset ∧ e.character = c ∧
      Between source e.offset (e.offset + e.character.utf8Size)
        (String.singleton e.character)) := by
  have hzeros := numeral_dropWhile_zero ((c :: behind).takeWhile Char.isDigit)
  obtain ⟨hcharacter, hnumber, hgiven⟩ := nextLexeme_outcome hrest
  refine ⟨hcharacter, hnumber, by rw [hzeros, TooLarge], hgiven, ?_⟩
  intro e he
  have hscan := nextLexeme_error_iff.mp he
  have hoffset := (scan_error_place hscan).1
  obtain rfl := scan_character hrest hscan
  have hreaches := hs ▸ (ofText source).afterCalls_reaches calls
  have hlocated := hreaches.locatedIn (.ofText source)
  exact ⟨hoffset, rfl, hoffset ▸ hlocated.between_character hrest⟩

/-- Zeros in front do not make a number too large, nor keep it from being so.  The
quote stands behind a letter of two bytes and is not closed. -/
theorem lexical_errors_edges :
    (∃ e lexeme, ((ofText "aa 0018446744073709551616").afterCalls
        [.token, .lexeme]).nextLexeme.answer = .error e ∧ e.cause = .numberOutOfRange lexeme) ∧
    (∃ t, ((ofText "aa 0018446744073709551615").afterCalls
        [.token, .lexeme]).nextLexeme.answer = .ok (some t)) ∧
    (∃ e d, ((ofText "'é'\"bb'").afterCalls [.lexeme]).nextLexeme.answer = .error e ∧
      e.cause = .unexpectedCharacter d ∧ Between "'é'\"bb'" 4 5 "\"") := by
  refine ⟨?_, ?_, ?_⟩
  · have hrest : ((ofText "aa 0018446744073709551616").afterCalls [.token, .lexeme]).rest
        = '0' :: "018446744073709551616".toList := by cbv
    obtain ⟨_, hnumber, _, _, _⟩ := lexical_errors _ _ _ rfl _ _ hrest
    exact hnumber.mpr ⟨by decide, by decide +kernel⟩
  · have hrest : ((ofText "aa 0018446744073709551615").afterCalls [.token, .lexeme]).rest
        = '0' :: "018446744073709551615".toList := by cbv
    obtain ⟨_, _, _, hgiven, _⟩ := lexical_errors _ _ _ rfl _ _ hrest
    refine hgiven.mpr ⟨?_, fun hlarge => absurd hlarge.2 (by decide +kernel)⟩
    rw [← firstMatch?_eq_none_iff_unreadable, firstMatch?_digit (by decide)]
    exact Option.some_ne_none _
  · have hrest : ((ofText "'é'\"bb'").afterCalls [.lexeme]).rest = '"' :: "bb'".toList := by cbv
    have hoffset : ((ofText "'é'\"bb'").afterCalls [.lexeme]).offset = 4 := by cbv
    obtain ⟨hcharacter, _, _, _, herror⟩ := lexical_errors _ _ _ rfl _ _ hrest
    obtain ⟨e, d, he, hcause⟩ := hcharacter.mpr (.unclosed (by decide) (by decide))
    obtain ⟨hplace, hfirst, hbetween⟩ := herror e he
    rw [hfirst, hplace, hoffset] at hbetween
    exact ⟨e, d, he, hcause, hbetween⟩

end TildeLang
