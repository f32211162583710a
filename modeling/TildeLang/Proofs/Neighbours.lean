import TildeLang.Proofs.Lexicon

/-!
# What comes after a token

Which row decides at a place of a source, and how much it takes, can depend on
what comes after the piece that is taken: a name goes on for as long as it can,
a reserved word must end there, a sign `=` must not be followed by another, and
a slash is a sign for division only if no other slash comes, however far away.

So it can be said what may be put after a token in place of what stood there.
A text that is empty, begins with **white space** or begins with the same
character will do, for every token but a few: white space itself, and comments
that go on to the end of their line.

* `firstMatch?_name`, `firstMatch?_assign`, `firstMatch?_divide` — the rows that
  are not the first that can begin with their characters;
* `firstMatch?_of_isForemost` — all other rows, blanks apart, are, and decide
  wherever they take something;
* `firstMatch?_blank` — and so do blanks, where no tab comes first;
* `firstMatch?_replace` — another text in place of what comes after a token.
-/

namespace TildeLang

/-! ### White space -/

/-- White space: the blanks and the characters that end lines. -/
def Text.isSpace (c : Char) : Bool := isBlank c || endsLine c

/-- White space is no part of words. -/
theorem Text.isWord_eq_false_of_isSpace {c : Char} (h : isSpace c = true) : isWord c = false := by
  rcases Bool.or_eq_true_iff.mp h with hblank | hends
  · exact isWord_eq_false_of_isBlank hblank
  · rcases Bool.or_eq_true_iff.mp hends with hreturn | hfeed
    · obtain rfl := beq_iff_eq.mp hreturn
      decide
    · obtain rfl := beq_iff_eq.mp hfeed
      decide

theorem Alphabet.holds_eq_false_of_isSpace {alphabet : Alphabet} (hblank : alphabet ≠ .blank)
    {c : Char} (h : Text.isSpace c = true) : alphabet.holds c = false := by
  by_contra hholds
  have hword := Alphabet.isWord_of_holds (by simpa using hholds) hblank
  simp [Text.isWord_eq_false_of_isSpace h] at hword

/-- The new text can take the place of the old one after a token: it is empty,
begins with white space, or begins as the old one does. -/
def Replaces (new old : List Char) : Prop :=
  ∀ c, new.head? = some c → Text.isSpace c = true ∨ old.head? = some c

theorem Replaces.stops {new old : List Char} (h : Replaces new old) {accepts : Char → Bool}
    (hspace : ∀ c, Text.isSpace c = true → accepts c = false) (hstops : Stops accepts old) :
    Stops accepts new := by
  intro c hc
  rcases h c hc with hc | hsame
  · exact hspace c hc
  · exact hstops c hsame

/-- What may be put after a text may be put after a longer one. -/
theorem Replaces.append {new old : List Char} (h : Replaces new old) (text : List Char) :
    Replaces (text ++ new) (text ++ old) := by
  cases text with
  | nil => exact h
  | cons c text => exact fun d hd => Or.inr hd

/-! ### Rows that come behind others -/

/-- The rows before that of the identifiers take no name. -/
theorem split_name_eq_none {row : Row} (hrow : row ∈ tokenTable.take 35) {text rest : List Char}
    (h : LikeName text) (hrest : Stops Alphabet.name.holds rest)
    (hreserved : text ∈ reservedWords → Shape.startsWord rest = true) :
    row.split (text ++ rest) = none := by
  have hrows : ∀ {c : Char}, Alphabet.name.holds c = true → ∀ row ∈ tokenTable.take 35,
      row.shape.begins c = true →
      (∃ word ∈ leadingWords, row.shape = .fixed word) ∨
      (∃ word ∈ reservedWords, row.shape = .word word) := fun hc =>
    Text.of_ascii (fun c => Alphabet.name.holds c = true → ∀ row ∈ tokenTable.take 35,
      row.shape.begins c = true →
      (∃ word ∈ leadingWords, row.shape = .fixed word) ∨
      (∃ word ∈ reservedWords, row.shape = .word word)) (by decide +kernel)
      (Alphabet.toNat_lt_of_name hc) hc
  have hletters : ∀ word ∈ leadingWords ++ reservedWords,
      word.all Alphabet.name.holds = true := by decide
  cases hsplit : row.split (text ++ rest) with
  | none => rfl
  | some found =>
      obtain ⟨taken, left⟩ := found
      have hne : text ≠ [] := fun hnil => absurd h.length (by simp [hnil])
      obtain ⟨c, more, rfl⟩ := List.exists_cons_of_ne_nil hne
      have hshapeSplit := (Row.split_eq_some_iff.mp hsplit).1
      rcases hrows (h.letters c List.mem_cons_self) row hrow (Row.begins_of_split hsplit) with
        ⟨word, hword, hshape⟩ | ⟨word, hword, hshape⟩
      · rw [hshape] at hshapeSplit
        obtain ⟨_, hwhole⟩ := Shape.splitFixed_eq_some_iff.mp hshapeSplit
        have hword' := List.all_eq_true.mp (hletters word (List.mem_append_left _ hword))
        exact absurd (hrest.begins_within hword' ⟨left, hwhole.symm⟩) (h.fresh word hword)
      · rw [hshape] at hshapeSplit
        obtain ⟨_, hwhole, hends⟩ := Shape.splitWord_eq_some_iff.mp hshapeSplit
        have hword' := List.all_eq_true.mp (hletters word (List.mem_append_right _ hword))
        obtain ⟨extra, hextra⟩ := hrest.begins_within hword' ⟨left, hwhole.symm⟩
        rw [← hextra, List.append_assoc, List.append_cancel_left_eq] at hwhole
        cases extra with
        | nil =>
            -- The name is the reserved word itself, and goes on as a word.
            rw [List.append_nil] at hextra
            rw [List.nil_append] at hwhole
            rw [← hwhole, hreserved (hextra ▸ hword)] at hends
            cases hends
        | cons d extra =>
            have hletter := h.letters d (by simp [← hextra])
            rw [← hwhole] at hends
            exact absurd (Alphabet.isWord_of_holds hletter (by decide))
              (Bool.eq_false_iff.mp hends)

/-- **Names.**  A name is an identifier where it ends, and so is a reserved word
that goes on as a word. -/
theorem firstMatch?_name {text rest : List Char} (h : LikeName text)
    (hrest : Stops Alphabet.name.holds rest)
    (hreserved : text ∈ reservedWords → Shape.startsWord rest = true) :
    firstMatch? tokenTable (text ++ rest)
      = some (.plain .identifier .identifier (.run 2 .name), text, rest) := by
  have htable : tokenTable
      = tokenTable.take 35 ++ [.plain .identifier .identifier (.run 2 .name)] := by decide
  have hbefore : firstMatch? (tokenTable.take 35) (text ++ rest) = none :=
    firstMatch?_eq_none_iff.mpr fun row hrow => split_name_eq_none hrow h hrest hreserved
  have hsplit : (Row.plain .identifier .identifier (.run 2 .name)).split (text ++ rest)
      = some (text, rest) := by
    refine Row.split_eq_some_iff.mpr ⟨hrest.splitRun h.letters h.length, ?_⟩
    exact fun hnil => absurd h.length (by simp [hnil])
  rw [htable, firstMatch?_append, hbefore, Option.none_or]
  exact firstMatch?_cons_of_split hsplit

/-- A sign `=` is one by itself where no other comes right after it. -/
theorem firstMatch?_assign {rest : List Char} (hrest : Stops (· == '=') rest) :
    firstMatch? tokenTable ('=' :: rest)
      = some (.symbol .operator .assign ['='], ['='], rest) := by
  have hrows : tokenTable.filter (fun row => row.shape.begins '=')
      = [.symbol .operator .equal ['=', '='], .symbol .operator .assign ['=']] := by decide
  have hdouble : (Row.symbol .operator .equal ['=', '=']).split ('=' :: rest) = none := by
    cases rest with
    | nil => rfl
    | cons c more =>
        have hc : '=' ≠ c := by
          rintro rfl
          simp [Stops] at hrest
        simp [Row.split, Row.symbol, Row.plain, Shape.split, Shape.splitFixed, strip?, hc]
  have hsingle : (Row.symbol .operator .assign ['=']).split (['='] ++ rest)
      = some (['='], rest) := Row.split_fixed rfl (List.cons_ne_nil _ _) rest
  rw [List.singleton_append] at hsingle
  rw [firstMatch?_filter, hrows]
  simp [firstMatch?, hdouble, hsingle]

/-- A slash is a sign for division where no other slash comes. -/
theorem firstMatch?_divide {rest : List Char} (hslash : '/' ∉ rest) :
    firstMatch? tokenTable ('/' :: rest)
      = some (.symbol .operator .divide ['/'], ['/'], rest) := by
  have hrows : tokenTable.filter (fun row => row.shape.begins '/')
      = [.plain .comment .blockComment (.enclosed '/'), .symbol .operator .divide ['/']] := by
    decide
  have hopen : rest.dropWhile (· != '/') = [] := by
    refine List.dropWhile_eq_nil_iff.mpr fun c hc => ?_
    have hne : c ≠ '/' := fun heq => hslash (heq ▸ hc)
    simpa using hne
  rw [firstMatch?_filter, hrows]
  simp [firstMatch?, Row.split, Row.plain, Row.symbol, Shape.split, Shape.splitEnclosed, hopen,
    Shape.splitFixed, strip?]

/-- Where a sign `=` stands by itself, no other comes right after it. -/
theorem stops_of_assign {row : Row} {taken rest : List Char}
    (h : firstMatch? tokenTable (taken ++ rest) = some (row, taken, rest))
    (hkind : row.kind = .assign) : taken = ['='] ∧ Stops (· == '=') rest := by
  have hrows : ∀ r ∈ tokenTable, r.kind = .assign → r.shape = .fixed ['='] := by decide
  have hlast : ∀ r ∈ tokenTable.take 22, r.kind ≠ .assign := by decide
  have hdouble : ∃ r ∈ tokenTable.take 22, r.shape = .fixed ['=', '='] := by decide
  obtain ⟨hmem, hsplit⟩ := firstMatch?_mem h
  obtain rfl : taken = ['='] := by
    have hshape := (Row.split_eq_some_iff.mp hsplit).1
    rw [hrows row hmem hkind] at hshape
    exact (Shape.splitFixed_eq_some_iff.mp hshape).1
  refine ⟨rfl, ?_⟩
  intro c hc
  obtain ⟨more, rfl⟩ := List.head?_eq_some_iff.mp hc
  obtain ⟨r, hr, hshape⟩ := hdouble
  have hnone := split_eq_none_of_firstMatch? h (fun hin => hlast row hin hkind) hr
  by_contra hequals
  obtain rfl : c = '=' := by simpa using hequals
  have hsplit' := Row.split_fixed hshape (List.cons_ne_nil _ _) more
  cases hnone.symm.trans hsplit'

/-! ### Rows that come first -/

/-- The rows that are the first to begin with any of their characters. -/
def Row.isForemost (row : Row) : Bool :=
  row.kind ∉ [.whiteSpace, .assign, .divide, .identifier]

/-- No row of the table that can begin with one of its characters comes before
such a row. -/
theorem filter_begins_of_isForemost {row : Row} (hrow : row ∈ tokenTable)
    (hforemost : row.isForemost = true) {c : Char} (hbegins : row.shape.begins c = true) :
    ∃ others, tokenTable.filter (fun row => row.shape.begins c) = row :: others := by
  have hmarks : ∀ row ∈ tokenTable, row.shape.marks.all (fun x => x.toNat < 128) = true := by
    decide
  have hruns : ∀ row ∈ tokenTable, row.isForemost = true → row.shape.begins ' ' = false := by
    decide
  have hascii : c.toNat < 128 := by
    rcases Shape.begins_eq_true hbegins with hmark | ⟨least, alphabet, hrun, hholds⟩
    · simpa using List.all_eq_true.mp (hmarks row hrow) c hmark
    · cases alphabet with
      | blank =>
          have hspace : row.shape.begins ' ' = Text.isBlank ' ' := by rw [hrun]; rfl
          rw [hruns row hrow hforemost] at hspace
          exact absurd hspace (by decide)
      | digit => exact Alphabet.toNat_lt_of_digit hholds
      | name => exact Alphabet.toNat_lt_of_name hholds
  have hfirst := Text.of_ascii (fun c => ∀ row ∈ tokenTable, row.isForemost = true →
    row.shape.begins c = true →
      (tokenTable.filter fun row => row.shape.begins c).head? = some row) (by decide +kernel)
    hascii row hrow hforemost hbegins
  exact List.head?_eq_some_iff.mp hfirst

/-- Such a row decides wherever it takes something. -/
theorem firstMatch?_of_isForemost {row : Row} (hrow : row ∈ tokenTable)
    (hforemost : row.isForemost = true) {whole taken rest : List Char}
    (hsplit : row.split whole = some (taken, rest)) :
    firstMatch? tokenTable whole = some (row, taken, rest) := by
  have happend := Row.split_append hsplit
  obtain ⟨c, more, hcons⟩ := List.exists_cons_of_ne_nil (Row.split_ne_nil hsplit)
  rw [hcons, List.cons_append] at happend
  subst happend
  obtain ⟨others, hrows⟩ :=
    filter_begins_of_isForemost hrow hforemost (Row.begins_of_split hsplit)
  exact firstMatch?_of_filter hrows hsplit

/-- Only the row of blanks can begin with a blank that is no tab. -/
theorem filter_begins_of_blank {c : Char} (hblank : Text.isBlank c = true) (htab : c ≠ '\t') :
    tokenTable.filter (fun row => row.shape.begins c)
      = [.plain .whitespace .whiteSpace (.run 1 .blank)] := by
  have hmarks : ∀ row ∈ tokenTable,
      row.shape.marks.all (fun x => x == '\t' || !Text.isBlank x) = true := by decide
  have hruns : ∀ row ∈ tokenTable, row.shape.begins ' ' = true →
      row = .plain .whitespace .whiteSpace (.run 1 .blank) := by decide
  have hsole : tokenTable.filter (· == .plain .whitespace .whiteSpace (.run 1 .blank))
      = [.plain .whitespace .whiteSpace (.run 1 .blank)] := by decide
  rw [← hsole]
  refine List.filter_congr ?_
  intro row hrow
  by_cases hblanks : row = .plain .whitespace .whiteSpace (.run 1 .blank)
  · subst hblanks
    simpa [Row.plain, Shape.begins, Alphabet.holds] using hblank
  · rw [beq_false_of_ne hblanks]
    by_contra hbegins
    rcases Shape.begins_eq_true (by simpa using hbegins) with
      hmark | ⟨least, alphabet, hrun, hholds⟩
    · have hheld := List.all_eq_true.mp (hmarks row hrow) c hmark
      simp [htab, hblank] at hheld
    · by_cases halphabet : alphabet = .blank
      · have hspace : row.shape.begins ' ' = Text.isBlank ' ' := by rw [hrun, halphabet]; rfl
        exact hblanks (hruns row hrow (hspace.trans (by decide)))
      · have hspace : Text.isSpace c = true := by simp [Text.isSpace, hblank]
        simp [Alphabet.holds_eq_false_of_isSpace halphabet hspace] at hholds

/-- Blanks other than a tab are taken up to the next character that is none. -/
theorem firstMatch?_blank {c : Char} (hblank : Text.isBlank c = true) (htab : c ≠ '\t')
    (rest : List Char) :
    firstMatch? tokenTable (c :: rest)
      = some (.plain .whitespace .whiteSpace (.run 1 .blank), c :: rest.takeWhile Text.isBlank,
          rest.dropWhile Text.isBlank) := by
  have hsplit : Shape.splitRun 1 Text.isBlank (c :: rest)
      = some (c :: rest.takeWhile Text.isBlank, rest.dropWhile Text.isBlank) := by
    simp [Shape.splitRun, hblank]
  refine firstMatch?_of_filter (filter_begins_of_blank hblank htab) ?_
  exact Row.split_eq_some_iff.mpr ⟨hsplit, List.cons_ne_nil _ _⟩

/-! ### White space and comments -/

theorem Shape.splitLineEnd_endsLine {whole taken rest : List Char}
    (h : splitLineEnd whole = some (taken, rest)) : ∀ c ∈ taken, Text.endsLine c = true := by
  obtain ⟨_, rfl | ⟨c, rfl, hends, _⟩⟩ := splitLineEnd_eq_some h
  · simp [Text.endsLine]
  · simpa using hends

/-- The rows of white space take nothing else. -/
theorem isSpace_of_whitespace {row : Row} (hrow : row ∈ tokenTable)
    (hcategory : row.category = .whitespace) {whole taken rest : List Char}
    (hsplit : row.split whole = some (taken, rest)) : ∀ c ∈ taken, Text.isSpace c = true := by
  have hrows : ∀ row ∈ tokenTable, row.category = .whitespace →
      row.shape = .lineEnd ∨ row.shape = .fixed ['\t'] ∨ row.shape = .run 1 .blank := by decide
  have hshape := (Row.split_eq_some_iff.mp hsplit).1
  rcases hrows row hrow hcategory with heq | heq | heq <;> rw [heq] at hshape
  · intro c hc
    simp [Text.isSpace, Shape.splitLineEnd_endsLine hshape c hc]
  · obtain ⟨rfl, _⟩ := Shape.splitFixed_eq_some_iff.mp hshape
    exact List.forall_mem_singleton.mpr (by decide)
  · intro c hc
    have hblank : Text.isBlank c = true := (Shape.splitRun_eq_some hshape).2.1 c hc
    simp [Text.isSpace, hblank]

/-- A line comment has no end of its line inside, and ends where one comes. -/
theorem comment_of_split {row : Row} (hrow : row ∈ tokenTable) (hkind : row.kind = .lineComment)
    {whole taken rest : List Char} (hsplit : row.split whole = some (taken, rest)) :
    row.category.isTrivia = true ∧ ∃ body, taken = '#' :: body ∧
      (∀ c ∈ body, (!Text.endsLine c) = true) ∧ Stops (!Text.endsLine ·) rest := by
  have hrows : ∀ row ∈ tokenTable, row.kind = .lineComment →
      row.category.isTrivia = true ∧ row.shape = .restOfLine '#' := by decide
  obtain ⟨htrivia, heq⟩ := hrows row hrow hkind
  refine ⟨htrivia, ?_⟩
  have hshape := (Row.split_eq_some_iff.mp hsplit).1
  rw [heq] at hshape
  cases whole with
  | nil => cases hshape
  | cons c more =>
      simp only [Shape.split, Shape.splitRestOfLine] at hshape
      split at hshape
      · rename_i hmark
        cases hshape
        refine ⟨_, by rw [hmark], ?_, stops_dropWhile _ more⟩
        intro c hc
        exact @List.mem_takeWhile_imp _ (!Text.endsLine ·) more c hc
      · cases hshape

/-! ### Another text after a token -/

/-- Whether a piece of the shape stays the same when white space is put after
it. -/
def Shape.sparesSpace : Shape → Bool
  | lineEnd => false
  | run _ .blank => false
  | restOfLine _ => false
  | _ => true

/-- Another text after a piece does not change what the shape takes. -/
theorem Row.split_replace {row : Row} {taken old new : List Char}
    (h : row.split (taken ++ old) = some (taken, old)) (hspares : row.shape.sparesSpace = true)
    (hnew : Replaces new old) : row.split (taken ++ new) = some (taken, new) := by
  obtain ⟨hsplit, hne⟩ := Row.split_eq_some_iff.mp h
  cases hshape : row.shape with
  | fixed text =>
      rw [hshape] at hsplit
      obtain ⟨rfl, _⟩ := Shape.splitFixed_eq_some_iff.mp hsplit
      exact Row.split_fixed hshape hne new
  | word text =>
      rw [hshape] at hsplit
      obtain ⟨rfl, _, hends⟩ := Shape.splitWord_eq_some_iff.mp hsplit
      have hstops := hnew.stops (fun _ => Text.isWord_eq_false_of_isSpace)
        (startsWord_eq_false_iff.mp hends)
      exact Row.split_word hshape hne (startsWord_eq_false_iff.mpr hstops)
  | run least alphabet =>
      rw [hshape] at hsplit hspares
      obtain ⟨hleast, hholds, hstops⟩ := Shape.splitRun_eq_some hsplit
      have halphabet : alphabet ≠ .blank := by
        rintro rfl
        cases hspares
      have hstops' := hnew.stops (fun _ => Alphabet.holds_eq_false_of_isSpace halphabet) hstops
      refine Row.split_eq_some_iff.mpr ⟨?_, hne⟩
      rw [hshape]
      exact hstops'.splitRun hholds hleast
  | enclosed mark =>
      rw [hshape] at hsplit
      obtain ⟨inner, rfl, hinner⟩ := Shape.splitEnclosed_eq_some hsplit
      refine Row.split_eq_some_iff.mpr ⟨?_, hne⟩
      rw [hshape]
      simpa [Shape.split] using Shape.splitEnclosed_of_not_mem hinner new
  | lineEnd => rw [hshape] at hspares; cases hspares
  | restOfLine mark => rw [hshape] at hspares; cases hspares

/-- **What comes after a token.**  Where a piece is taken, the same row takes it
when another text takes the place of what comes after it, unless the piece goes
on, as white space does and comments do that have no end of their own.  A
reserved word must not become free to stand alone, and no slash must come after
a sign for division. -/
theorem firstMatch?_replace {row : Row} {taken old new : List Char}
    (h : firstMatch? tokenTable (taken ++ old) = some (row, taken, old))
    (hspares : row.shape.sparesSpace = true) (hnew : Replaces new old)
    (hname : row.kind = .identifier → taken ∉ reservedWords)
    (hslash : row.kind = .divide → '/' ∉ new) :
    firstMatch? tokenTable (taken ++ new) = some (row, taken, new) := by
  obtain ⟨hrow, hsplit⟩ := firstMatch?_mem h
  by_cases hforemost : row.isForemost = true
  · have hsplit' := Row.split_replace hsplit hspares hnew
    exact firstMatch?_of_isForemost hrow hforemost hsplit'
  · -- Three rows come behind others, and each asks something of what follows.
    have hothers : ∀ row ∈ tokenTable, row.isForemost = false → row.shape.sparesSpace = true →
        row = .symbol .operator .assign ['='] ∨ row = .symbol .operator .divide ['/'] ∨
        row = .plain .identifier .identifier (.run 2 .name) := by decide
    rcases hothers row hrow (by simpa using hforemost) hspares with rfl | rfl | rfl
    · obtain ⟨rfl, hstops⟩ := stops_of_assign h rfl
      refine firstMatch?_assign (hnew.stops ?_ hstops)
      intro c hc
      by_contra hequals
      obtain rfl : c = '=' := by simpa using hequals
      exact absurd hc (by decide)
    · obtain ⟨rfl, _⟩ := no_slash_of_divide h rfl
      exact firstMatch?_divide (hslash rfl)
    · obtain ⟨_, _, hstops⟩ := Shape.splitRun_eq_some (Row.split_eq_some_iff.mp hsplit).1
      have hstops' :=
        hnew.stops (fun _ => Alphabet.holds_eq_false_of_isSpace (by decide)) hstops
      refine firstMatch?_name (likeName_of_identifier h rfl) hstops' ?_
      exact fun hreserved => absurd hreserved (hname rfl)

end TildeLang
