import Mathlib
import TildeLang.Proofs.Failures
import TildeLang.Proofs.LexicalErrors

/-!
# The hint for identifiers of one character

A lexical error at a character of names has one reason only: the character stands
by itself, where an identifier needs two.  The error knows nothing of what comes
behind the character; its hint is given by the character alone.

The hint names the alphabet of identifiers, which has the small letters and the
underscore.  It is given for the small letters, so an underscore by itself is
refused without it.

* `Text.Lone` — an identifier of one character;
* `Text.Unreadable.lone_iff` — a character of names is refused only where it is
  one;
* `name_hint_iff` — where the hint is given;
* `underscore_without_hint` — where it is missing.
-/

namespace TildeLang

open TokenStream Text

/-- The hint that an identifier has too few characters. -/
def LexError.nameHint : String := "identifiers need at least two characters from [a-z_]"

/-- A character of names with none behind it: an identifier of one character. -/
def Text.Lone (c : Char) (behind : List Char) : Prop :=
  Alphabet.name.holds c = true ∧ Stops Alphabet.name.holds behind

/-- Reading a source, in one of the three ways, ends at a lexical error. -/
def LexError.MetIn (source : String) (e : LexError) : Prop :=
  tokenize source = .error e ∨ parse source = .error (.lexical e) ∨
    parseExpression source = .error (.lexical e)

section Errors

variable {source : String} {s : TokenStream} {e : LexError} {c : Char} {behind : List Char}

/-- All three ways come to the error that reading all tokens gives. -/
theorem LexError.MetIn.tokenize_eq (h : e.MetIn source) : tokenize source = .error e :=
  h.elim id fun h => h.elim tokenize_of_parse_lexical tokenize_of_parseExpression_lexical

/-- An unexpected character stands where the error says, and the text from there on
is unreadable. -/
theorem LexError.MetIn.exists_unreadable (h : e.MetIn source)
    (hcause : e.cause = .unexpectedCharacter c) :
    ∃ before behind, source.toList = before ++ c :: behind ∧ e.offset = byteLength before ∧
      Unreadable c behind := by
  obtain ⟨s, hreaches, hscan⟩ := outlook_fault (tokenize_eq_error_iff.mp h.tokenize_eq)
  obtain ⟨before, hsource, hoffset, _, _⟩ := hreaches.locatedIn (.ofText source)
  have hplace := (scan_error_place hscan).1.trans hoffset
  cases hrest : s.rest with
  | nil => cases (scan_eq_none_iff.mpr hrest).symm.trans hscan
  | cons d behind =>
      rw [hrest] at hsource
      rcases scan_cases hrest with ⟨hunreadable, _, herror⟩ | ⟨_, _, herror⟩ | ⟨_, _, _, _, hok⟩
      · cases hscan.symm.trans herror
        cases hcause
        exact ⟨before, behind, hsource, hplace, hunreadable⟩
      · cases hscan.symm.trans herror
        cases hcause
      · cases hscan.symm.trans hok

/-- **One reason.**  A character of names is unreadable only by itself. -/
theorem Text.Unreadable.lone_iff (h : Unreadable c behind) :
    Lone c behind ↔ Alphabet.name.holds c = true := by
  refine ⟨And.left, fun hname => ?_⟩
  cases h with
  | single _ hstops => exact ⟨hname, hstops⟩
  | unclosed hquote _ =>
      rcases List.mem_pair.mp hquote with rfl | rfl
      · exact absurd hname (by decide)
      · exact absurd hname (by decide)
  | foreign _ _ hforeign _ _ =>
      rw [hforeign] at hname
      cases hname

/-- The small letters are the characters of names, the underscore apart. -/
theorem isLower_iff_name : c.isLower = true ↔ Alphabet.name.holds c = true ∧ c ≠ '_' := by
  have hunderscore : '_'.isLower = false := by decide
  constructor
  · intro hlower
    refine ⟨by simp [Alphabet.holds, hlower], ?_⟩
    rintro rfl
    rw [hunderscore] at hlower
    cases hlower
  · rintro ⟨hname, hne⟩
    simpa [Alphabet.holds, hne] using hname

theorem LexError.help_of_unexpected (hcause : e.cause = .unexpectedCharacter c) :
    e.help = if c.isLower then some nameHint else none := by
  simp only [help, hcause, nameHint]

end Errors

/-- **The hint.**  Where reading a source ends at an unexpected character, the
character stands at the offset of the error.  It is an identifier of one character
exactly if it is a character of names, and for each of these but the underscore the
hint is given; otherwise there is no hint at all. -/
theorem name_hint_iff (source : String) (e : LexError) (c : Char) (h : e.MetIn source)
    (hcause : e.cause = .unexpectedCharacter c) :
    ∃ before behind, source.toList = before ++ c :: behind ∧ e.offset = byteLength before ∧
      (Lone c behind ↔ Alphabet.name.holds c = true) ∧
      (e.help = some LexError.nameHint ↔ Alphabet.name.holds c = true ∧ c ≠ '_') ∧
      (e.help = some LexError.nameHint ∨ e.help = none) := by
  obtain ⟨before, behind, hsource, hoffset, hunreadable⟩ := h.exists_unreadable hcause
  refine ⟨before, behind, hsource, hoffset, hunreadable.lone_iff, ?_⟩
  rw [LexError.help_of_unexpected hcause, ← isLower_iff_name]
  cases c.isLower <;> simp

/-- A letter by itself, behind a letter of two bytes in a comment. -/
theorem name_hint_iff_letter :
    ∃ e : LexError, e.MetIn "/é/ x1" ∧ e.cause = .unexpectedCharacter 'x' ∧ e.offset = 5 ∧
      e.help = some LexError.nameHint := by
  have hparse : parse "/é/ x1" = .error (.lexical ⟨.unexpectedCharacter 'x', 5, ⟨1, 5⟩⟩) := by
    cbv
  obtain ⟨_, _, _, _, _, hhint, _⟩ := name_hint_iff _ _ 'x' (.inr (.inl hparse)) rfl
  exact ⟨_, .inr (.inl hparse), rfl, rfl, hhint.mpr (by decide)⟩

/-- **No hint.**  An underscore by itself is an identifier of one character, and is
refused without the hint. -/
theorem underscore_without_hint :
    let e : LexError := ⟨.unexpectedCharacter '_', 0, ⟨1, 1⟩⟩
    tokenize "_" = .error e ∧ parse "_" = .error (.lexical e) ∧
      parseExpression "_" = .error (.lexical e) ∧ Lone '_' [] ∧
      ¬(e.help = some LexError.nameHint ↔ Alphabet.name.holds '_' = true) := by
  have hparse : parse "_" = .error (.lexical ⟨.unexpectedCharacter '_', 0, ⟨1, 1⟩⟩) := by cbv
  have hlone : Lone '_' [] := ⟨by decide, by simp [Stops]⟩
  exact ⟨tokenize_of_parse_lexical hparse, hparse, by cbv, hlone, by decide⟩

end TildeLang
