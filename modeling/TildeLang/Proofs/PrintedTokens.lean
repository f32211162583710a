import TildeLang.Proofs.Spelled

/-!
# The tokens of a printed text

A word that is followed by a space, or by nothing, is read as one token of its
own kind and value.  So a text of words that are separated by single spaces
spells these words, provided that no slash is written after a sign for
division.

* `Spelling.Sound.scans` — one word;
* `spells_spaced` — words one after another.
-/

namespace TildeLang

/-- At the front of a text, the word is read as a token of its own kind and
value, and the rest is left. -/
def Spelling.Scans (w : Spelling) (rest : List Char) : Prop :=
  ∃ row, firstMatch? tokenTable (w.text.toList ++ rest) = some (row, w.text.toList, rest) ∧
    row.kind = w.kind ∧ row.category.isTrivia = false ∧
    row.reading.value? w.text.toList = some w.value

/-- The text is empty or begins with a space. -/
def Separated (text : List Char) : Prop := ∀ c, text.head? = some c → c = ' '

theorem Separated.stops {rest : List Char} (h : Separated rest) {accepts : Char → Bool}
    (hspace : accepts ' ' = false) : Stops accepts rest := by
  intro c hc
  rw [h c hc, hspace]

namespace Spelling

/-- The words that are the same in every text and that the first row takes
that can begin with their first character. -/
def signs : List Spelling :=
  [.leftParen, .rightParen, .leftBrace, .rightBrace, .comma, .ifWord, .elseWord,
    Binding.letBinding.spelling, Binding.constBinding.spelling, BinaryOp.add.spelling,
    BinaryOp.sub.spelling, BinaryOp.multiply.spelling, (Literal.truth true).spelling,
    (Literal.truth false).spelling]

theorem scans_of_mem_signs {w : Spelling} (hw : w ∈ signs) {rest : List Char}
    (hrest : Separated rest) : w.Scans rest := by
  have hsigns : ∀ w ∈ signs, w.text.toList ≠ [] ∧ ∃ row ∈ tokenTable, row.isForemost = true ∧
      (row.shape = .fixed w.text.toList ∨ row.shape = .word w.text.toList) ∧
      row.kind = w.kind ∧ row.category.isTrivia = false ∧
      row.reading.value? w.text.toList = some w.value := by decide
  obtain ⟨hne, row, hrow, hforemost, hshape, hkind, htrivia, hvalue⟩ := hsigns w hw
  have hsplit : row.split (w.text.toList ++ rest) = some (w.text.toList, rest) := by
    rcases hshape with hfixed | hword
    · exact Row.split_fixed hfixed hne rest
    · have hends := startsWord_eq_false_iff.mpr (hrest.stops (by decide))
      exact Row.split_word hword hne hends
  exact ⟨row, firstMatch?_of_isForemost hrow hforemost hsplit, hkind, htrivia, hvalue⟩

theorem scans_equals {rest : List Char} (hrest : Separated rest) : equals.Scans rest :=
  ⟨_, firstMatch?_assign (hrest.stops (by decide)), rfl, rfl, rfl⟩

/-- A slash is a sign for division where no other slash comes. -/
theorem scans_divide {rest : List Char} (hslash : '/' ∉ rest) :
    BinaryOp.divide.spelling.Scans rest :=
  ⟨_, firstMatch?_divide hslash, rfl, rfl, rfl⟩

/-- The digits of a number are read as that number. -/
theorem readNumber?_toDigits (n : UInt64) :
    Reading.readNumber? (Nat.toDigits 10 n.toNat) = some n := by
  have hdigits : ∀ c ∈ Nat.toDigits 10 n.toNat, Char.isDigit c = true :=
    fun c hc => Nat.isDigit_of_mem_toDigits (by decide) (by decide) hc
  have hdecimal : Reading.decimal (Nat.toDigits 10 n.toNat) = n.toNat :=
    Nat.ofDigitChars_ten_toDigits
  rw [Reading.readNumber?_of_digits Nat.toDigits_ne_nil hdigits]
  simp [hdecimal, UInt64.toNat_lt_size]

theorem scans_number (n : UInt64) {rest : List Char} (hrest : Separated rest) :
    (Literal.number n).spelling.Scans rest := by
  have htext : (Literal.number n).spelling.text.toList = Nat.toDigits 10 n.toNat := by
    simp [Literal.spelling, Literal.text, Literal.number, Value.describe]
  have hdigits : ∀ c ∈ Nat.toDigits 10 n.toNat, Char.isDigit c = true :=
    fun c hc => Nat.isDigit_of_mem_toDigits (by decide) (by decide) hc
  refine ⟨⟨.literal, .number, .run 1 .digit, .number⟩, ?_, rfl, rfl, ?_⟩
  · have hne : Nat.toDigits 10 n.toNat ≠ [] := Nat.toDigits_ne_nil
    have hsplit : Shape.splitRun 1 Char.isDigit (Nat.toDigits 10 n.toNat ++ rest)
        = some (Nat.toDigits 10 n.toNat, rest) :=
      (hrest.stops (by decide)).splitRun hdigits (List.length_pos_iff.mpr hne)
    rw [htext]
    apply firstMatch?_of_isForemost (by decide) (by decide)
    exact Row.split_eq_some_iff.mpr ⟨hsplit, hne⟩
  · rw [htext, Reading.value?, readNumber?_toDigits]
    rfl

/-- **Quoted texts.**  A text between two quotes that holds none is read as
what stands between them. -/
theorem scans_quoted {mark : Char} (row : Row) (hrow : row ∈ tokenTable)
    (hforemost : row.isForemost = true) (hshape : row.shape = .enclosed mark)
    (hreading : row.reading = .unquoted) (htrivia : row.category.isTrivia = false)
    (hmark : mark.utf8Size = 1) {s : String} (h : mark ∉ s.toList) (rest : List Char) :
    Scans ⟨row.kind, .text s, String.ofList (mark :: (s.toList ++ [mark]))⟩ rest := by
  refine ⟨row, ?_, rfl, htrivia, ?_⟩
  · simp only [String.toList_ofList, List.cons_append, List.append_assoc, List.nil_append]
    apply firstMatch?_of_isForemost hrow hforemost
    refine Row.split_eq_some_iff.mpr ⟨?_, List.cons_ne_nil _ _⟩
    rw [hshape]
    exact Shape.splitEnclosed_of_not_mem h rest
  · simp [hreading, Reading.value?, unquote_enclosed hmark]

/-- **Names.**  A name is read as an identifier. -/
theorem scans_name {x : String} (h : IsName x.toList) {rest : List Char}
    (hrest : Separated rest) : (name x).Scans rest := by
  have hmatch := firstMatch?_name h.toLikeName (hrest.stops (by decide))
    fun hreserved => absurd hreserved h.free
  exact ⟨_, hmatch, rfl, rfl, by simp [name, plain, Row.plain, Reading.value?]⟩

theorem scans_literal {l : Literal} (h : l.Fits) {rest : List Char} (hrest : Separated rest) :
    l.spelling.Scans rest := by
  obtain ⟨n, rfl⟩ | ⟨s, rfl, hfree⟩ | ⟨s, rfl, hfree⟩ | ⟨b, rfl⟩ := h.cases
  · exact scans_number n hrest
  · exact scans_quoted ⟨.literal, .string, .enclosed '"', .unquoted⟩ (by decide) (by decide)
      rfl rfl rfl (by decide) hfree rest
  · exact scans_quoted ⟨.literal, .char, .enclosed '\'', .unquoted⟩ (by decide) (by decide)
      rfl rfl rfl (by decide) hfree rest
  · cases b <;> exact scans_of_mem_signs (by decide) hrest

/-- The words of the texts that can be read back. -/
inductive Sound : Spelling → Prop
  | sign {w : Spelling} (h : w ∈ signs) : Sound w
  | equals : Sound .equals
  | divide : Sound BinaryOp.divide.spelling
  | name {text : String} (h : IsName text.toList) : Sound (.name text)
  | literal {l : Literal} (h : l.Fits) : Sound l.spelling

/-- **One word.**  A word is read as a token of its own kind and value, where
no slash comes after a sign for division. -/
theorem Sound.scans {w : Spelling} (h : w.Sound) {rest : List Char} (hrest : Separated rest)
    (hslash : w.kind = .divide → '/' ∉ rest) : w.Scans rest := by
  cases h with
  | sign h => exact scans_of_mem_signs h hrest
  | equals => exact scans_equals hrest
  | divide => exact scans_divide (hslash rfl)
  | name h => exact scans_name h hrest
  | literal h => exact scans_literal h hrest

end Spelling

section Words

variable {words : List Spelling}

theorem Spelling.Scans.spells {w : Spelling} {rest : List Char} (h : w.Scans rest)
    (later : Spells rest words) : Spells (w.text.toList ++ rest) (w :: words) := by
  obtain ⟨row, hmatch, hkind, htrivia, hvalue⟩ := h
  have hword : w = ⟨row.kind, w.value, String.ofList w.text.toList⟩ := by
    rw [hkind, String.ofList_toList]
  rw [hword]
  exact .word (by simpa using hmatch) htrivia (by simpa using hvalue) later

/-- The first of several words is read as it is. -/
private theorem scans_first {w : Spelling} (hsound : w.Sound)
    (hslashes : ∀ w' ∈ words, w.kind = .divide → '/' ∉ w'.text.toList) :
    w.Scans (words.flatMap fun w => ' ' :: w.text.toList) := by
  refine hsound.scans ?_ ?_
  · cases words with
    | nil => simp [Separated]
    | cons w' words => simp [Separated]
  · intro hkind
    simpa using fun w' hw' => hslashes w' hw' hkind

/-- Words that each come after a space are read as they are. -/
theorem spells_flatMap (hsound : ∀ w ∈ words, w.Sound)
    (hslashes : words.Pairwise fun w w' => w.kind = .divide → '/' ∉ w'.text.toList) :
    Spells (words.flatMap fun w => ' ' :: w.text.toList) words := by
  induction words with
  | nil => exact .nil
  | cons w words ih =>
      rw [List.forall_mem_cons] at hsound
      rw [List.pairwise_cons] at hslashes
      rw [List.flatMap_cons, List.cons_append, spells_space_iff (by decide)]
      exact (scans_first hsound.1 hslashes.1).spells (ih hsound.2 hslashes.2)

/-- **Words one after another.**  A text of words that are separated by single
spaces spells these words. -/
theorem spells_spaced (hsound : ∀ w ∈ words, w.Sound)
    (hslashes : words.Pairwise fun w w' => w.kind = .divide → '/' ∉ w'.text.toList) :
    Spells (spaced (words.map fun w => w.text.toList)) words := by
  cases words with
  | nil => exact .nil
  | cons w words =>
      rw [List.forall_mem_cons] at hsound
      rw [List.pairwise_cons] at hslashes
      rw [List.map_cons, spaced, List.flatMap_map]
      have hlater := spells_flatMap hsound.2 hslashes.2
      exact (scans_first hsound.1 hslashes.1).spells hlater

end Words

end TildeLang
