import TildeLang.Proofs.Location

/-!
# Names and literals

What the tokens of a source say about each other and about their own texts.

A **name** is a text of two or more small letters and underscores that is none
of the words `if`, `let` and `const` and does not begin with `true`, `false`
or `else`.  An identifier token nearly always spells a name.  The exception is
a word such as `if` that stands directly before a digit: then the next token
is a number.

* `Token.Genuine` — what holds of every token by itself;
* `outlook_genuine` — every token of a stream is genuine;
* `outlook_reserved` — an identifier token that spells a reserved word is
  followed by a number;
* `outlook_slashes` — after a token for division no slash comes any more.
-/

namespace TildeLang

/-- The words with which no name can begin. -/
def leadingWords : List (List Char) :=
  [['t', 'r', 'u', 'e'], ['f', 'a', 'l', 's', 'e'], ['e', 'l', 's', 'e']]

/-- The words that are no names. -/
def reservedWords : List (List Char) :=
  [['i', 'f'], ['l', 'e', 't'], ['c', 'o', 'n', 's', 't']]

/-- The texts that are names, or reserved words. -/
structure LikeName (text : List Char) : Prop where
  length : 2 ≤ text.length
  letters : ∀ c ∈ text, Alphabet.name.holds c = true
  fresh : ∀ word ∈ leadingWords, ¬word <+: text

/-- The texts that are names. -/
structure IsName (text : List Char) : Prop extends LikeName text where
  free : text ∉ reservedWords

/-- The kind and the value of a literal agree, and a text in quotes has none
of its own quotes inside. -/
def Literal.Fits (l : Literal) : Prop :=
  match l.kind, l.value with
  | .number, .number _ => True
  | .string, .text s => '"' ∉ s.toList
  | .char, .text s => '\'' ∉ s.toList
  | .boolTrue, .truth true => True
  | .boolFalse, .truth false => True
  | _, _ => False

/-- The literals that fit: numbers, texts in quotes, and truth values. -/
theorem Literal.Fits.cases {l : Literal} (h : l.Fits) :
    (∃ n, l = .number n) ∨ (∃ s, l = .string s ∧ '"' ∉ s.toList) ∨
      (∃ s, l = .char s ∧ '\'' ∉ s.toList) ∨ ∃ b, l = .truth b := by
  obtain ⟨kind, value⟩ := l
  cases kind with
  | number =>
      match value, h with
      | .number n, _ => exact .inl ⟨n, rfl⟩
  | string =>
      match value, h with
      | .text s, hfree => exact .inr (.inl ⟨s, rfl, hfree⟩)
  | char =>
      match value, h with
      | .text s, hfree => exact .inr (.inr (.inl ⟨s, rfl, hfree⟩))
  | boolTrue =>
      match value, h with
      | .truth true, _ => exact .inr (.inr (.inr ⟨true, rfl⟩))
  | boolFalse =>
      match value, h with
      | .truth false, _ => exact .inr (.inr (.inr ⟨false, rfl⟩))

/-- Whether a literal is a text with a slash in it. -/
def Literal.bearsSlash (l : Literal) : Bool :=
  match l.value with
  | .text s => s.toList.contains '/'
  | _ => false

/-- A run of digits is read as its number, if that fits in 64 bits. -/
theorem Reading.readNumber?_of_digits {digits : List Char} (hne : digits ≠ [])
    (hdigits : ∀ c ∈ digits, c.isDigit = true) :
    readNumber? digits = if h : decimal digits < UInt64.size
      then some (UInt64.ofNatLT (decimal digits) h) else none := by
  have hsign : afterSign digits = digits := by
    unfold afterSign
    split
    · have hplus := hdigits '+' List.mem_cons_self
      exact absurd hplus (by decide)
    · rfl
  rw [readNumber?, hsign, readDigits?, if_pos ⟨hne, List.all_eq_true.mpr hdigits⟩]

section Rows

variable {row : Row} {whole taken rest : List Char}

/-- The text of an identifier is a run that goes on for as long as it can. -/
private theorem splitRun_of_identifier
    (h : firstMatch? tokenTable whole = some (row, taken, rest))
    (hkind : row.kind = .identifier) :
    Shape.splitRun 2 Alphabet.name.holds whole = some (taken, rest) := by
  have hrows : ∀ r ∈ tokenTable, r.kind = .identifier → r.shape = .run 2 .name := by decide
  obtain ⟨hmem, hsplit⟩ := firstMatch?_mem h
  have hshape := (Row.split_eq_some_iff.mp hsplit).1
  rwa [hrows row hmem hkind] at hshape

/-- The rows before that of the identifiers take nothing where it decides. -/
private theorem split_eq_none_of_identifier
    (h : firstMatch? tokenTable whole = some (row, taken, rest))
    (hkind : row.kind = .identifier) {other : Row} (hother : other ∈ tokenTable.take 35) :
    other.split whole = none := by
  have hlast : ∀ r ∈ tokenTable.take 35, r.kind ≠ .identifier := by decide
  exact split_eq_none_of_firstMatch? h (fun hin => hlast row hin hkind) hother

/-- An identifier spells a name or a reserved word. -/
theorem likeName_of_identifier (h : firstMatch? tokenTable whole = some (row, taken, rest))
    (hkind : row.kind = .identifier) : LikeName taken := by
  have hwords : ∀ word ∈ leadingWords,
      word ≠ [] ∧ ∃ r ∈ tokenTable.take 35, r.shape = .fixed word := by decide
  obtain ⟨hlength, hletters, _⟩ := Shape.splitRun_eq_some (splitRun_of_identifier h hkind)
  refine ⟨hlength, hletters, ?_⟩
  intro word hword hbegins
  obtain ⟨more, rfl⟩ := hbegins
  obtain ⟨hne, r, hr, hshape⟩ := hwords word hword
  have hnone := split_eq_none_of_identifier h hkind hr
  rw [Row.split_append (firstMatch?_mem h).2, List.append_assoc,
    Row.split_fixed hshape hne] at hnone
  cases hnone

/-- After an identifier that spells a reserved word comes a word character
that is no part of a name. -/
theorem foreign_of_reserved (h : firstMatch? tokenTable whole = some (row, taken, rest))
    (hkind : row.kind = .identifier) (hreserved : taken ∈ reservedWords) :
    ∃ c more, rest = c :: more ∧ Text.isWord c = true ∧ Alphabet.name.holds c = false := by
  have hwords : ∀ word ∈ reservedWords,
      word ≠ [] ∧ ∃ r ∈ tokenTable.take 35, r.shape = .word word := by decide
  obtain ⟨_, _, hstop⟩ := Shape.splitRun_eq_some (splitRun_of_identifier h hkind)
  obtain ⟨hne, r, hr, hshape⟩ := hwords taken hreserved
  have hnone := split_eq_none_of_identifier h hkind hr
  cases hstarts : Shape.startsWord rest with
  | false =>
      rw [Row.split_append (firstMatch?_mem h).2, Row.split_word hshape hne hstarts] at hnone
      cases hnone
  | true =>
      cases rest with
      | nil => cases hstarts
      | cons c more => exact ⟨c, more, rfl, hstarts, hstop c rfl⟩

/-- After a sign for division there is no slash. -/
theorem no_slash_of_divide (h : firstMatch? tokenTable whole = some (row, taken, rest))
    (hkind : row.kind = .divide) : taken = ['/'] ∧ '/' ∉ rest := by
  have hrows : ∀ r ∈ tokenTable, r.kind = .divide → r.shape = .fixed ['/'] := by decide
  have hlast : ∀ r ∈ tokenTable.take 13, r.kind ≠ .divide := by decide
  have hcomment : ∃ r ∈ tokenTable.take 13, r.shape = .enclosed '/' := by decide
  obtain ⟨hmem, hsplit⟩ := firstMatch?_mem h
  obtain ⟨rfl, rfl⟩ : taken = ['/'] ∧ whole = ['/'] ++ rest := by
    have hshape := (Row.split_eq_some_iff.mp hsplit).1
    rw [hrows row hmem hkind] at hshape
    exact Shape.splitFixed_eq_some_iff.mp hshape
  obtain ⟨r, hr, hshape⟩ := hcomment
  have hnone := split_eq_none_of_firstMatch? h (fun hin => hlast row hin hkind) hr
  refine ⟨rfl, Shape.not_mem_of_splitEnclosed ?_⟩
  cases henclosed : Shape.splitEnclosed '/' ('/' :: rest) with
  | none => rfl
  | some found =>
      obtain ⟨taken, rest'⟩ := found
      obtain ⟨inner, rfl, _⟩ := Shape.splitEnclosed_eq_some henclosed
      have hfound : r.split ('/' :: rest) = some ('/' :: (inner ++ ['/']), rest') := by
        refine Row.split_eq_some_iff.mpr ⟨?_, List.cons_ne_nil _ _⟩
        rw [hshape]
        exact henclosed
      rw [List.singleton_append, hfound] at hnone
      cases hnone

theorem unquote_enclosed {mark : Char} (hmark : mark.utf8Size = 1) (inner : List Char) :
    Reading.unquote (mark :: (inner ++ [mark])) = inner := by
  simp [Reading.unquote, hmark]

/-- The value of a text between two marks is what stands between them, and it
holds no mark. -/
theorem value_of_enclosed {mark : Char} (hmark : mark.utf8Size = 1)
    (hsplit : Shape.splitEnclosed mark whole = some (taken, rest)) {value : Value}
    (hvalue : Reading.unquoted.value? taken = some value) :
    ∃ inner, value = .text (String.ofList inner) ∧ mark ∉ inner ∧ ∀ c ∈ inner, c ∈ taken := by
  obtain ⟨inner, rfl, hinner⟩ := Shape.splitEnclosed_eq_some hsplit
  rw [Reading.value?, unquote_enclosed hmark] at hvalue
  exact ⟨inner, (Option.some.inj hvalue).symm, hinner, fun c hc => by simp [hc]⟩

/-- The value that is read for a literal fits its kind, and its slashes are
those of the text. -/
theorem literal_of_firstMatch? (h : firstMatch? tokenTable whole = some (row, taken, rest))
    {k : LiteralKind} (hk : k.token = row.kind) {value : Value}
    (hvalue : row.reading.value? taken = some value) :
    Literal.Fits ⟨k, value⟩ ∧ (Literal.bearsSlash ⟨k, value⟩ = true → '/' ∈ taken) := by
  have hrows : ∀ r ∈ tokenTable,
      (r.kind = .number → r.reading = .number) ∧
      (r.kind = .string → r.reading = .unquoted ∧ r.shape = .enclosed '"') ∧
      (r.kind = .char → r.reading = .unquoted ∧ r.shape = .enclosed '\'') ∧
      (r.kind = .boolTrue → r.reading = .truth true) ∧
      (r.kind = .boolFalse → r.reading = .truth false) := by decide
  obtain ⟨hmem, hsplit⟩ := firstMatch?_mem h
  obtain ⟨hnumber, hstring, hchar, htrue, hfalse⟩ := hrows row hmem
  have hquoted : ∀ mark : Char, mark.utf8Size = 1 → row.reading = .unquoted →
      row.shape = .enclosed mark → ∃ s, value = .text s ∧ mark ∉ s.toList ∧
        (s.toList.contains '/' = true → '/' ∈ taken) := by
    intro mark hmark hreading hquote
    have hshape := (Row.split_eq_some_iff.mp hsplit).1
    rw [hquote] at hshape
    rw [hreading] at hvalue
    obtain ⟨inner, rfl, hfree, hinside⟩ := value_of_enclosed hmark hshape hvalue
    refine ⟨String.ofList inner, rfl, by simpa using hfree, fun hslash => ?_⟩
    exact hinside '/' (by simpa using hslash)
  cases k with
  | number =>
      rw [hnumber hk.symm] at hvalue
      obtain ⟨n, _, rfl⟩ := Option.map_eq_some_iff.mp hvalue
      exact ⟨trivial, nofun⟩
  | string =>
      obtain ⟨hreading, hquote⟩ := hstring hk.symm
      obtain ⟨s, rfl, hfits⟩ := hquoted '"' (by decide) hreading hquote
      exact hfits
  | char =>
      obtain ⟨hreading, hquote⟩ := hchar hk.symm
      obtain ⟨s, rfl, hfits⟩ := hquoted '\'' (by decide) hreading hquote
      exact hfits
  | boolTrue =>
      rw [htrue hk.symm] at hvalue
      obtain rfl := Option.some.inj hvalue
      exact ⟨trivial, nofun⟩
  | boolFalse =>
      rw [hfalse hk.symm] at hvalue
      obtain rfl := Option.some.inj hvalue
      exact ⟨trivial, nofun⟩

end Rows

/-- What holds of every token by itself: an identifier spells a name or a
reserved word, and a literal has a value that fits its kind and its text. -/
structure Token.Genuine (t : Token) : Prop where
  name : t.kind = .identifier → LikeName t.raw.toList
  literal : ∀ k : LiteralKind, k.token = t.kind → Literal.Fits ⟨k, t.value⟩ ∧
    (Literal.bearsSlash ⟨k, t.value⟩ = true → '/' ∈ t.raw.toList)
  divide : t.kind = .divide → '/' ∈ t.raw.toList

namespace TokenStream

variable {s next : TokenStream} {t : Token}

theorem scan_genuine (h : s.scan tokenTable = .ok (some (t, next))) : t.Genuine := by
  obtain ⟨row, taken, rest, value, hmatch, hvalue, rfl, rfl⟩ := scan_eq_some_iff.mp h
  constructor
  · intro hkind
    simpa [tokenAt] using likeName_of_identifier hmatch hkind
  · intro k hk
    simpa [tokenAt] using literal_of_firstMatch? hmatch hk hvalue
  · intro hkind
    simp [tokenAt, (no_slash_of_divide hmatch hkind).1]

/-- Every token of a stream is genuine. -/
theorem outlook_genuine (h : t ∈ s.outlook.1) : t.Genuine := by
  obtain ⟨s', next, _, hscan⟩ := mem_outlook h
  exact scan_genuine hscan

/-- The characters of the tokens of a stream are characters of its text. -/
theorem mem_rest_of_mem_outlook (h : t ∈ s.outlook.1) {c : Char} (hc : c ∈ t.raw.toList) :
    c ∈ s.rest := by
  obtain ⟨s', next, hreaches, hscan⟩ := mem_outlook h
  refine hreaches.rest_suffix.mem ?_
  rw [(scan_rest hscan).1]
  exact List.mem_append_left _ hc

theorem scan_divide (h : s.scan tokenTable = .ok (some (t, next))) (hkind : t.kind = .divide) :
    '/' ∉ next.rest := by
  obtain ⟨row, taken, rest, value, hmatch, _, rfl, rfl⟩ := scan_eq_some_iff.mp h
  exact (no_slash_of_divide hmatch hkind).2

/-- **Slashes.**  After a token for division no slash comes any more. -/
theorem outlook_slashes (s : TokenStream) :
    s.outlook.1.Pairwise fun t u => t.kind = .divide → '/' ∉ u.raw.toList := by
  fun_induction outlook s with
  | case1 s scanned e next hs => exact .nil
  | case2 s scanned next hs => exact .nil
  | case3 s scanned t next hs later ih =>
      refine .cons ?_ ih
      intro u hu hkind hslash
      obtain ⟨s', _, hscan⟩ := nextToken_reaches hs
      exact scan_divide hscan hkind (mem_rest_of_mem_outlook hu hslash)

/-- Where a word character follows that is no part of a name, the next token
is a number, unless there is an error. -/
theorem outlook_of_foreign {c : Char} {more : List Char} {ts : List Token}
    (hrest : s.rest = c :: more) (hword : Text.isWord c = true)
    (hname : Alphabet.name.holds c = false) (h : s.outlook = (ts, none)) :
    ∃ u us, ts = u :: us ∧ u.kind = .number := by
  cases hscan : s.scan tokenTable with
  | error e =>
      rw [outlook_of_error (nextToken_of_error hscan)] at h
      cases h
  | ok found =>
      cases found with
      | none =>
          rw [scan_eq_none_iff.mp hscan] at hrest
          cases hrest
      | some found =>
          obtain ⟨u, next⟩ := found
          obtain ⟨row, taken, rest, value, hmatch, _, rfl, rfl⟩ := scan_eq_some_iff.mp hscan
          rw [hrest] at hmatch
          have hdigit : Alphabet.digit.holds c = true := by
            cases hdigit : Alphabet.digit.holds c with
            | true => rfl
            | false =>
                rw [firstMatch?_of_isWord hword hdigit hname] at hmatch
                cases hmatch
          rw [firstMatch?_filter, filter_begins_of_digit hdigit] at hmatch
          obtain rfl := List.mem_singleton.mp (firstMatch?_mem hmatch).1
          rw [outlook_of_token (nextToken_of_token hscan rfl)] at h
          exact ⟨_, _, (Prod.mk.inj h).1.symm, rfl⟩

/-- **Reserved words.**  An identifier that spells a reserved word is followed
by a number. -/
theorem outlook_reserved {before after : List Token}
    (h : s.outlook = (before ++ t :: after, none)) (hkind : t.kind = .identifier)
    (hreserved : t.raw.toList ∈ reservedWords) :
    ∃ u more, after = u :: more ∧ u.kind = .number := by
  induction before generalizing s with
  | nil =>
      obtain ⟨scanned, next, hnext, hlater⟩ := outlook_eq_cons h
      obtain ⟨s', _, hscan⟩ := nextToken_reaches hnext
      obtain ⟨row, taken, rest, value, hmatch, _, rfl, rfl⟩ := scan_eq_some_iff.mp hscan
      rw [tokenAt, String.toList_ofList] at hreserved
      obtain ⟨c, more, hrest, hword, hname⟩ := foreign_of_reserved hmatch hkind hreserved
      exact outlook_of_foreign hrest hword hname hlater
  | cons b before ih =>
      obtain ⟨scanned, next, _, hlater⟩ := outlook_eq_cons h
      exact ih hlater

end TokenStream

end TildeLang
