import TildeLang.Proofs.Neighbours
import TildeLang.Proofs.Printing

/-!
# The words of a text

A text **spells** some words if it can be read to its end, and the tokens that
are no trivia are these words.  Words have no place, so it can be said of a part
of a source what it spells, whatever stands before it.

* `Spells.tokenize` — the tokens of a source are the words that it spells;
* `spells_trivia_iff` — trivia in front of a text do not change its words;
* `spells_spaces_iff` — nor does white space, although it can become one token
  with white space that is there;
* `spells_comment_iff` — a comment goes on to the end of its line.
-/

namespace TildeLang

/-- Read to its end, the text gives these words and otherwise trivia. -/
inductive Spells : List Char → List Spelling → Prop
  | nil : Spells [] []
  | trivia {whole taken rest : List Char} {row : Row} {words : List Spelling}
      (hmatch : firstMatch? tokenTable whole = some (row, taken, rest))
      (htrivia : row.category.isTrivia = true) (later : Spells rest words) : Spells whole words
  | word {whole taken rest : List Char} {row : Row} {value : Value} {words : List Spelling}
      (hmatch : firstMatch? tokenTable whole = some (row, taken, rest))
      (hvisible : row.category.isTrivia = false)
      (hvalue : row.reading.value? taken = some value) (later : Spells rest words) :
      Spells whole (⟨row.kind, value, String.ofList taken⟩ :: words)

variable {text : List Char} {words : List Spelling}

/-! ### From words to tokens -/

open TokenStream

/-- A stream with a text that spells some words has tokens to give that are
spelled like them. -/
theorem Spells.outlook (h : Spells text words) {s : TokenStream} (hs : s.rest = text) :
    ∃ ts, s.outlook = (ts, none) ∧ ts.map Token.spelling = words := by
  induction h generalizing s with
  | nil => exact ⟨[], outlook_of_end (nextToken_of_end (scan_eq_none_iff.mpr hs)), rfl⟩
  | @trivia whole taken rest row words hmatch htrivia later ih =>
      have hverbatim : ∀ row ∈ tokenTable, row.category.isTrivia = true →
          row.reading = .verbatim := by decide
      have hvalue : row.reading.value? taken = some (.text (String.ofList taken)) := by
        rw [hverbatim row (firstMatch?_mem hmatch).1 htrivia, Reading.value?]
      rw [← hs] at hmatch
      have hscan := scan_eq_some_iff.mpr ⟨_, _, _, _, hmatch, hvalue, rfl, rfl⟩
      rw [outlook_of_trivia hscan htrivia]
      apply ih
      rfl
  | @word whole taken rest row value words hmatch hvisible hvalue later ih =>
      rw [← hs] at hmatch
      have hscan := scan_eq_some_iff.mpr ⟨_, _, _, _, hmatch, hvalue, rfl, rfl⟩
      obtain ⟨ts, houtlook, hwords⟩ := @ih (s.after row taken rest) rfl
      rw [outlook_of_token (nextToken_of_token hscan hvisible), houtlook]
      exact ⟨_, rfl, by rw [List.map_cons, hwords]; rfl⟩

/-- **Words and tokens.**  A source that spells some words is cut into tokens that
are spelled like them. -/
theorem Spells.tokenize {source : String} (h : Spells source.toList words) :
    ∃ ts, tokenize source = .ok ts ∧ ts.map Token.spelling = words := by
  obtain ⟨ts, houtlook, hwords⟩ := @Spells.outlook _ _ h (ofText source) rfl
  exact ⟨ts, tokenize_eq_ok_iff.mpr houtlook, hwords⟩

/-! ### Trivia in front of a text -/

/-- Trivia in front of a text do not change its words. -/
theorem spells_trivia_iff {whole taken rest : List Char} {row : Row}
    (hmatch : firstMatch? tokenTable whole = some (row, taken, rest))
    (htrivia : row.category.isTrivia = true) : Spells whole words ↔ Spells rest words := by
  constructor
  · intro h
    cases h with
    | nil => cases hmatch
    | trivia hmatch' htrivia' later =>
        cases hmatch.symm.trans hmatch'
        exact later
    | word hmatch' hvisible hvalue later =>
        cases hmatch.symm.trans hmatch'
        cases htrivia.symm.trans hvisible
  · exact .trivia hmatch htrivia

theorem spells_tab_iff (rest : List Char) : Spells ('\t' :: rest) words ↔ Spells rest words := by
  have hsplit : (Row.symbol .whitespace .tab ['\t']).split ('\t' :: rest)
      = some (['\t'], rest) := rfl
  exact spells_trivia_iff (firstMatch?_of_isForemost (by decide) (by decide) hsplit) rfl

/-- Blanks in front of a text do not change its words. -/
theorem spells_blanks_iff (text : List Char) :
    Spells (text.dropWhile Text.isBlank) words ↔ Spells text words := by
  induction text with
  | nil => rfl
  | cons c more ih =>
      by_cases hblank : Text.isBlank c = true
      · rw [List.dropWhile_cons_of_pos hblank]
        by_cases htab : c = '\t'
        · rw [ih, htab, spells_tab_iff]
        · exact (spells_trivia_iff (firstMatch?_blank hblank htab more) rfl).symm
      · rw [List.dropWhile_cons_of_neg hblank]

theorem spells_of_splitLineEnd {whole taken rest : List Char} (hne : taken ≠ [])
    (hsplit : Shape.splitLineEnd whole = some (taken, rest)) :
    Spells whole words ↔ Spells rest words := by
  have hrow : (Row.plain .whitespace .lineEnd .lineEnd).split whole = some (taken, rest) :=
    Row.split_eq_some_iff.mpr ⟨hsplit, hne⟩
  exact spells_trivia_iff (firstMatch?_of_isForemost (by decide) (by decide) hrow) rfl

/-- A line end in front of a text does not change its words.  A line feed that
comes after a carriage return belongs to it. -/
theorem spells_lineEnd_iff {c : Char} (hends : Text.endsLine c = true) (rest : List Char) :
    Spells (c :: rest) words ↔ Spells rest words := by
  by_cases hpair : c = '\r' ∧ ∃ more, rest = '\n' :: more
  · obtain ⟨rfl, more, rfl⟩ := hpair
    rw [spells_of_splitLineEnd (List.cons_ne_nil _ _) rfl]
    exact (spells_of_splitLineEnd (List.cons_ne_nil '\n' []) rfl).symm
  · refine spells_of_splitLineEnd (List.cons_ne_nil c []) ?_
    rw [Shape.splitLineEnd.eq_3 _ _ fun more hc hrest => hpair ⟨hc, more, hrest⟩, if_pos hends]

/-- White space in front of a text does not change its words. -/
theorem spells_space_iff {c : Char} (hspace : Text.isSpace c = true) (rest : List Char) :
    Spells (c :: rest) words ↔ Spells rest words := by
  rcases Bool.or_eq_true_iff.mp hspace with hblank | hends
  · rw [← spells_blanks_iff (c :: rest), List.dropWhile_cons_of_pos hblank, spells_blanks_iff]
  · exact spells_lineEnd_iff hends rest

/-- **White space** in front of a text does not change its words. -/
theorem spells_spaces_iff {space : List Char} (hspace : ∀ c ∈ space, Text.isSpace c = true)
    (rest : List Char) : Spells (space ++ rest) words ↔ Spells rest words := by
  induction space with
  | nil => rfl
  | cons c space ih =>
      rw [List.forall_mem_cons] at hspace
      rw [List.cons_append, spells_space_iff hspace.1, ih hspace.2]

/-- A comment goes on to the end of its line, and does not change the words after
it. -/
theorem spells_comment_iff (text : List Char) :
    Spells ('#' :: text) words ↔ Spells (text.dropWhile (!Text.endsLine ·)) words := by
  have hsplit : (Row.plain .comment .lineComment (.restOfLine '#')).split ('#' :: text)
      = some ('#' :: text.takeWhile (!Text.endsLine ·), text.dropWhile (!Text.endsLine ·)) := rfl
  exact spells_trivia_iff (firstMatch?_of_isForemost (by decide) (by decide) hsplit) rfl

end TildeLang
