import TildeLang.Proofs.Respelling
import TildeLang.Proofs.Spelled
import TildeLang.Proofs.Walk
import TildeLang.Proofs.WellFormed

/-!
# Putting texts together

A text can be put into an accepted source, or after it, without a change to the
tokens that are there.  White space between two lexemes leaves the program as it
is; another program on a line of its own adds its statements.

* `Substitutes` — what can take the place of the rest of a source;
* `Substitutes.lexeme`, `Passes.substitutes` — it still can with one more lexeme
  before it, and so with any number of them;
* `parse_insert_space` — white space between two lexemes;
* `parse_concatenation` — one program after another.
-/

namespace TildeLang

open TokenStream

variable {s next final : TokenStream} {t : Token} {ls ls' : List Token} {new old : List Char}
  {words : List Spelling}

/-! ### Another text after some lexemes -/

/-- The words that some lexemes spell. -/
def spellings (ls : List Token) : List Spelling :=
  (ls.filter Token.isVisible).map Token.spelling

@[simp]
theorem spellings_nil : spellings [] = [] := rfl

theorem spellings_append (ls ls' : List Token) :
    spellings (ls ++ ls') = spellings ls ++ spellings ls' := by
  rw [spellings, List.filter_append, List.map_append, spellings, spellings]

/-- The new text, which spells these words, can take the place of the old one after
a lexeme.  A line comment goes on into the new text, up to the end of its line. -/
structure Substitutes (new old : List Char) (words : List Spelling) : Prop where
  replaces : Replaces new old
  spells : Spells new words
  comment : Stops (!Text.endsLine ·) old → Spells (new.dropWhile (!Text.endsLine ·)) words

/-- White space before a text can be put in its place. -/
theorem Substitutes.space {space : List Char} (hspace : ∀ c ∈ space, Text.isSpace c = true)
    (h : Spells old words) : Substitutes (space ++ old) old words where
  replaces := by
    cases space with
    | nil => exact fun c hc => Or.inr hc
    | cons d space =>
        rintro c ⟨⟩
        exact Or.inl (hspace d List.mem_cons_self)
  spells := (spells_spaces_iff hspace old).mpr h
  comment hstops := by
    rw [List.dropWhile_append, hstops.dropWhile]
    split
    · exact h
    · refine (spells_spaces_iff ?_ old).mpr h
      exact fun c hc => hspace c (List.dropWhile_subset _ hc)

/-- A line of its own can be put anywhere. -/
theorem Substitutes.newLine {text : List Char} (h : Spells text words) (old : List Char) :
    Substitutes ('\n' :: text) old words where
  replaces := by
    rintro c ⟨⟩
    exact Or.inl (by decide)
  spells := (spells_space_iff (by decide) text).mpr h
  comment _ := by
    rw [List.dropWhile_cons_of_neg (by decide)]
    exact (spells_space_iff (by decide) text).mpr h

/-- Behind a piece that is not empty, it only matters what the longer text
spells. -/
theorem Substitutes.append {taken : List Char} (hne : taken ≠ []) (hnew : Replaces new old)
    (hspells : Spells (taken ++ new) words) : Substitutes (taken ++ new) (taken ++ old) words where
  replaces := hnew.append taken
  spells := hspells
  comment hstops := by
    obtain ⟨c, more, rfl⟩ := List.exists_cons_of_ne_nil hne
    have hstops' : Stops (!Text.endsLine ·) (c :: more ++ new) := hstops
    rwa [hstops'.dropWhile]

/-- A piece of a text is trivia, or it is the first of its words. -/
theorem spells_of_match {whole taken rest : List Char} {row : Row} {value : Value}
    (hmatch : firstMatch? tokenTable whole = some (row, taken, rest))
    (hvalue : row.reading.value? taken = some value) (h : Spells rest words) :
    Spells whole (spellings [s.tokenAt row taken value] ++ words) := by
  by_cases htrivia : row.category.isTrivia = true
  · have hspells := Spells.trivia hmatch htrivia h
    simpa [spellings, tokenAt, Token.isVisible, Token.isTrivia, htrivia] using hspells
  · have hspells := Spells.word hmatch (by simpa using htrivia) hvalue h
    simpa [spellings, tokenAt, Token.isVisible, Token.isTrivia, Token.spelling, htrivia]
      using hspells

/-- A lexeme is read as before where another text takes the place of what came
after it. -/
theorem Substitutes.spells_lexeme (hscan : s.scan tokenTable = .ok (some (t, next)))
    (hnew : Substitutes new next.rest words)
    (hname : t.kind = .identifier → t.raw.toList ∉ reservedWords)
    (hslash : t.kind = .divide → '/' ∉ new) :
    Spells (t.raw.toList ++ new) (spellings [t] ++ words) := by
  obtain ⟨row, taken, rest, value, hmatch, hvalue, rfl, rfl⟩ := scan_eq_some_iff.mp hscan
  obtain ⟨hrow, hsplit⟩ := firstMatch?_mem hmatch
  rw [Row.split_append hsplit] at hmatch
  simp only [tokenAt, String.toList_ofList] at hname ⊢
  by_cases hspace : row.category = .whitespace
  · -- It may become one token with white space that follows, but it spells nothing.
    have hspaces := isSpace_of_whitespace hrow hspace hsplit
    have hwords := (spells_spaces_iff hspaces new).mpr hnew.spells
    simpa [spellings, Token.isVisible, Token.isTrivia, hspace, Category.isTrivia] using hwords
  by_cases hline : row.kind = .lineComment
  · -- It takes in what follows up to the end of the line.
    obtain ⟨htrivia, body, rfl, hbody, hstops⟩ := comment_of_split hrow hline hsplit
    have hwords := hnew.comment hstops
    rw [← List.dropWhile_append_of_pos hbody, ← spells_comment_iff] at hwords
    simpa [spellings, Token.isVisible, Token.isTrivia, htrivia] using hwords
  · have hspares : ∀ row ∈ tokenTable, row.category ≠ .whitespace → row.kind ≠ .lineComment →
        row.shape.sparesSpace = true := by decide
    have hmatch' :=
      firstMatch?_replace hmatch (hspares row hrow hspace hline) hnew.replaces hname hslash
    exact spells_of_match hmatch' hvalue hnew.spells

/-- **One lexeme.**  What can take the place of the text after a lexeme can do so
with the lexeme before it. -/
theorem Substitutes.lexeme (hscan : s.scan tokenTable = .ok (some (t, next)))
    (hnew : Substitutes new next.rest words)
    (hname : t.kind = .identifier → t.raw.toList ∉ reservedWords)
    (hslash : t.kind = .divide → '/' ∉ new) :
    Substitutes (t.raw.toList ++ new) s.rest (spellings [t] ++ words) := by
  obtain ⟨hrest, hne⟩ := scan_rest hscan
  have hspells := Substitutes.spells_lexeme hscan hnew hname hslash
  rw [hrest]
  exact .append hne hnew.replaces hspells

/-- **Any number of lexemes** are read as before where another text takes the place
of what came after them, if no reserved word is among them that stands as an
identifier, and if no slash comes after a sign for division. -/
theorem TokenStream.Passes.substitutes (h : s.Passes ls final)
    (hnew : Substitutes new final.rest words)
    (hnames : ∀ t ∈ ls, t.kind = .identifier → t.raw.toList ∉ reservedWords)
    (hslashes : ∀ t ∈ ls, t.kind = .divide → '/' ∉ new) :
    Substitutes ((String.join (ls.map Token.raw)).toList ++ new) s.rest
      (spellings ls ++ words) := by
  induction h with
  | nil s => simpa using hnew
  | @cons s middle final t ls hscan later ih =>
      rw [List.forall_mem_cons] at hnames hslashes
      have hlater := ih hnew hnames.2 hslashes.2
      -- No slash comes behind a sign for division, neither in the lexemes that stay
      -- nor in the new text.
      have hslash : t.kind = .divide →
          '/' ∉ (String.join (ls.map Token.raw)).toList ++ new := by
        intro hkind
        have hfree := scan_divide hscan hkind
        rw [later.rest] at hfree
        rw [List.mem_append, not_or] at hfree ⊢
        exact ⟨hfree.1, hslashes.1 hkind⟩
      have hsub := hlater.lexeme hscan hnames.1 hslash
      rw [← List.append_assoc (spellings [t]), ← spellings_append] at hsub
      simpa using hsub

/-- A text spells the words of its lexemes. -/
theorem TokenStream.Passes.spells (h : s.Passes ls final) (hend : final.rest = []) :
    Spells s.rest (spellings ls) := by
  induction h with
  | nil s =>
      rw [hend]
      exact .nil
  | @cons s middle final t ls hscan later ih =>
      have hlater := ih hend
      obtain ⟨row, taken, rest, value, hmatch, hvalue, rfl, rfl⟩ := scan_eq_some_iff.mp hscan
      have hspells := spells_of_match (s := s) hmatch hvalue hlater
      rwa [← spellings_append] at hspells

/-- After a sign for division no slash comes any more. -/
theorem TokenStream.Passes.no_slash (h : s.Passes ls final) (ht : t ∈ ls)
    (hkind : t.kind = .divide) : '/' ∉ final.rest := by
  induction h with
  | nil s => cases ht
  | cons hscan later ih =>
      rcases List.mem_cons.mp ht with rfl | hlater
      · exact fun hslash => scan_divide hscan hkind (later.reaches.rest_suffix.mem hslash)
      · exact ih hlater

/-! ### Sources -/

variable {source : String} {ts : List Token} {program : Program}

/-- The lexemes of an accepted source. -/
theorem exists_lexemes_of_parse (h : parse source = .ok program) :
    ∃ ls, lexemes source = .ok ls ∧
      Grammar.Program maxNesting (ls.filter Token.isVisible) program := by
  obtain ⟨ts, htokens, hprogram⟩ := parse_eq_ok_iff.mp h
  rw [tokenize_eq_lexemes] at htokens
  cases hall : lexemes source with
  | error e =>
      rw [hall] at htokens
      cases htokens
  | ok ls =>
      rw [hall] at htokens
      cases htokens
      exact ⟨ls, rfl, hprogram⟩

/-- Identifiers and signs for division are no trivia. -/
theorem TokenStream.Passes.isVisible (h : s.Passes ls final) (ht : t ∈ ls)
    (hkind : t.kind = .identifier ∨ t.kind = .divide) : t.isVisible = true := by
  have hrows : ∀ row ∈ tokenTable, row.kind = .identifier ∨ row.kind = .divide →
      row.category.isTrivia = false := by decide
  obtain ⟨s₁, s₂, _, hscan⟩ := h.of_mem ht
  obtain ⟨row, taken, rest, value, hmem, _, _, rfl, _⟩ := scan_eq_some hscan
  simp [Token.isVisible, Token.isTrivia, tokenAt, hrows row hmem hkind]

/-- No lexeme of an accepted source is an identifier that spells a reserved
word. -/
theorem free_of_lexemes (hall : lexemes source = .ok ls)
    (hprogram : Grammar.Program maxNesting (ls.filter Token.isVisible) program) (ht : t ∈ ls)
    (hkind : t.kind = .identifier) : t.raw.toList ∉ reservedWords := by
  obtain ⟨final, hpasses, _⟩ := passes_of_lexemes hall
  have htokens := tokenize_of_lexemes hall
  have hvisible := hpasses.isVisible ht (Or.inl hkind)
  exact (isName_of_identifier htokens hprogram (List.mem_filter.mpr ⟨ht, hvisible⟩) hkind).free

/-- A source that spells the words of a program is accepted as that program. -/
theorem parse_of_spells (hprogram : Grammar.Program maxNesting ts program)
    (h : Spells source.toList (ts.map Token.spelling)) : parse source = .ok program := by
  obtain ⟨us, htokens, hwords⟩ := h.tokenize
  exact parse_eq_ok_iff.mpr ⟨us, htokens, Grammar.Program.respell _ _ _ _ hprogram hwords⟩

/-! ### White space between lexemes -/

/-- The source `a ++ b` is cut between two lexemes, or at one of its ends. -/
def AtBoundary (a b : String) : Prop :=
  ∃ before after, lexemes (a ++ b) = .ok (before ++ after) ∧
    String.join (before.map Token.raw) = a

/-- **White space never matters.**  An accepted source stays the same program when
white space is put between two of its lexemes, or before or after all of them. -/
theorem parse_insert_space (a b space : String) (program : Program)
    (h : parse (a ++ b) = .ok program) (hcut : AtBoundary a b)
    (hspace : ∀ c ∈ space.toList, Text.isSpace c = true) :
    parse (a ++ space ++ b) = .ok program := by
  obtain ⟨before, after, hall, hjoin⟩ := hcut
  obtain ⟨ls, hall', hprogram⟩ := exists_lexemes_of_parse h
  obtain rfl := Except.ok.inj (hall'.symm.trans hall)
  obtain ⟨final, hpasses, hend⟩ := passes_of_lexemes hall
  obtain ⟨middle, hbefore, hafter⟩ := hpasses.exists_middle
  have hrest : b.toList = middle.rest := by
    have hsource : (a ++ b).toList = (String.join (before.map Token.raw)).toList ++ middle.rest :=
      hbefore.rest
    rw [hjoin, String.toList_append] at hsource
    exact List.append_cancel_left hsource
  have hwords := hafter.spells hend
  have hnames : ∀ t ∈ before, t.kind = .identifier → t.raw.toList ∉ reservedWords :=
    fun t ht => free_of_lexemes hall hprogram (List.mem_append_left after ht)
  have hslashes : ∀ t ∈ before, t.kind = .divide → '/' ∉ space.toList ++ middle.rest := by
    intro t ht hkind
    rw [List.mem_append, not_or]
    refine ⟨?_, hbefore.no_slash ht hkind⟩
    exact fun hslash => absurd (hspace '/' hslash) (by decide)
  have hspells := (hbefore.substitutes (.space hspace hwords) hnames hslashes).spells
  refine parse_of_spells hprogram ?_
  rw [hjoin, ← spellings_append, ← hrest] at hspells
  rw [String.toList_append, String.toList_append, List.append_assoc]
  exact hspells

/-- The white space goes into the comment at first, and then becomes one with the
end of the line. -/
theorem parse_insert_space_comment : ∃ program : Program,
    parse ("aa=1 # note" ++ "\nbb=aa/2") = .ok program ∧
      AtBoundary "aa=1 # note" "\nbb=aa/2" ∧
      (∀ c ∈ " \r".toList, Text.isSpace c = true) ∧
      parse ("aa=1 # note" ++ " \r" ++ "\nbb=aa/2") = .ok program := by
  have h : parse ("aa=1 # note" ++ "\nbb=aa/2")
      = .ok ⟨[.expression (.assign "aa" (.literal (.number 1))),
          .expression (.assign "bb" (.binary .divide (.identifier "aa")
            (.literal (.number 2))))]⟩ := by cbv
  have hcut : AtBoundary "aa=1 # note" "\nbb=aa/2" := by
    refine ⟨[⟨.identifier, .identifier, .text "aa", "aa", 0, 2, ⟨1, 1⟩⟩,
        ⟨.operator, .assign, .text "=", "=", 2, 3, ⟨1, 3⟩⟩,
        ⟨.literal, .number, .number 1, "1", 3, 4, ⟨1, 4⟩⟩,
        ⟨.whitespace, .whiteSpace, .text " ", " ", 4, 5, ⟨1, 5⟩⟩,
        ⟨.comment, .lineComment, .text "# note", "# note", 5, 11, ⟨1, 6⟩⟩],
      [⟨.whitespace, .lineEnd, .text "\n", "\n", 11, 12, ⟨1, 12⟩⟩,
        ⟨.identifier, .identifier, .text "bb", "bb", 12, 14, ⟨2, 1⟩⟩,
        ⟨.operator, .assign, .text "=", "=", 14, 15, ⟨2, 3⟩⟩,
        ⟨.identifier, .identifier, .text "aa", "aa", 15, 17, ⟨2, 4⟩⟩,
        ⟨.operator, .divide, .text "/", "/", 17, 18, ⟨2, 6⟩⟩,
        ⟨.literal, .number, .number 2, "2", 18, 19, ⟨2, 7⟩⟩], ?_, ?_⟩
    · cbv
    · rfl
  have hspace : ∀ c ∈ " \r".toList, Text.isSpace c = true := by
    intro c hc
    rcases List.mem_pair.mp hc with rfl | rfl <;> decide
  exact ⟨_, h, hcut, hspace, parse_insert_space _ _ _ _ h hcut hspace⟩

/-! ### One program after another -/

/-- **One program after another.**  The text of an accepted source, a new line, and
the text of another make the statements of the first and then those of the second,
unless the first has a sign for division and the second has a slash. -/
theorem parse_concatenation (source source' : String) (program program' : Program)
    (h : parse source = .ok program) (h' : parse source' = .ok program')
    (hslash : ¬((∃ ts, tokenize source = .ok ts ∧ ∃ t ∈ ts, t.kind = .divide) ∧
      '/' ∈ source'.toList)) :
    parse (source ++ "\n" ++ source') = .ok ⟨program.body ++ program'.body⟩ := by
  obtain ⟨ls, hall, hprogram⟩ := exists_lexemes_of_parse h
  obtain ⟨ls', hall', hprogram'⟩ := exists_lexemes_of_parse h'
  obtain ⟨final, hpasses, hend⟩ := passes_of_lexemes hall
  obtain ⟨final', hpasses', hend'⟩ := passes_of_lexemes hall'
  have hwords : Spells source'.toList (spellings ls') := hpasses'.spells hend'
  have hnames : ∀ t ∈ ls, t.kind = .identifier → t.raw.toList ∉ reservedWords :=
    fun t ht => free_of_lexemes hall hprogram ht
  have hslashes : ∀ t ∈ ls, t.kind = .divide → '/' ∉ '\n' :: source'.toList := by
    intro t ht hkind hmem
    have hvisible := hpasses.isVisible ht (Or.inr hkind)
    refine hslash ⟨⟨_, tokenize_of_lexemes hall, t, List.mem_filter.mpr ⟨ht, hvisible⟩, hkind⟩, ?_⟩
    simpa using hmem
  have hspells := (hpasses.substitutes (.newLine hwords _) hnames hslashes).spells
  refine parse_of_spells (hprogram.append hprogram') ?_
  rw [hpasses.join_eq hend] at hspells
  rw [List.map_append, String.toList_append, String.toList_append, List.append_assoc]
  exact hspells

/-- The first program ends in a comment, after a division.  The second has no
slash. -/
theorem parse_concatenation_division :
    parse "aa=bb/2 # half" = .ok ⟨[.expression (.assign "aa" (.binary .divide (.identifier "bb")
      (.literal (.number 2))))]⟩ ∧
    parse "if(aa)bb='x'" = .ok ⟨[.ifThen (.identifier "aa")
      (.expression (.assign "bb" (.literal (.char "x"))))]⟩ ∧
    '/' ∉ "if(aa)bb='x'".toList ∧
    parse ("aa=bb/2 # half" ++ "\n" ++ "if(aa)bb='x'")
      = .ok ⟨[.expression (.assign "aa" (.binary .divide (.identifier "bb")
          (.literal (.number 2)))),
        .ifThen (.identifier "aa") (.expression (.assign "bb" (.literal (.char "x"))))]⟩ := by
  have h : parse "aa=bb/2 # half" = .ok ⟨[.expression (.assign "aa"
      (.binary .divide (.identifier "bb") (.literal (.number 2))))]⟩ := by cbv
  have h' : parse "if(aa)bb='x'" = .ok ⟨[.ifThen (.identifier "aa")
      (.expression (.assign "bb" (.literal (.char "x"))))]⟩ := by cbv
  have hfree : '/' ∉ "if(aa)bb='x'".toList := by simp
  exact ⟨h, h', hfree, parse_concatenation _ _ _ _ h h' fun hboth => hfree hboth.2⟩

/-- The two slashes become the ends of a comment, and leave a number that begins no
statement. -/
example : parse ("aa=bb/2" ++ "\n" ++ "cc=dd/2")
    = .error (.grammar ⟨.statement, .unexpectedStatement (some .number), ⟨2, 7⟩⟩) := by cbv

end TildeLang
