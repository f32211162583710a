import Mathlib
import TildeLang.Proofs.Calls

/-!
# Nothing of a source is lost

Asking a stream for lexemes cuts its source into pieces that lie side by side
and leave nothing out.  The pieces are located by byte offsets, so it is said
in bytes what it is for a text to stand at a place of a source.

* `Text.Between` — the text between two byte offsets of a source;
* `LocatedIn.between` — every token stands where it says;
* `lexemes_lossless` — the texts of the lexemes make up the source, or the part
  of it before a lexical error.
-/

namespace TildeLang

namespace Text

/-- The text is what a source has between two byte offsets, both of which are
boundaries of its characters. -/
structure Between (source : String) (start stop : Nat) (text : String) : Prop where
  bytes : text.toByteArray = source.toByteArray.extract start stop
  start_valid : String.Pos.Raw.IsValid source ⟨start⟩
  stop_valid : String.Pos.Raw.IsValid source ⟨stop⟩

theorem utf8ByteSize_ofList (text : List Char) :
    (String.ofList text).utf8ByteSize = byteLength text := by
  induction text with
  | nil => rfl
  | cons c text ih => simp [String.ofList_cons, ih]

variable {source : String} {before text after : List Char}

/-- The length of the first part of a source is a boundary. -/
theorem isValid_of_split (h : source.toList = before ++ after) :
    String.Pos.Raw.IsValid source ⟨byteLength before⟩ := by
  rw [String.Pos.Raw.isValid_iff_exists_take_toList, h]
  exact ⟨before.length, by rw [List.take_left, utf8ByteSize_ofList]⟩

/-- A part of a source stands where the part before it ends. -/
theorem Between.of_split (h : source.toList = before ++ (text ++ after)) :
    Between source (byteLength before) (byteLength before + byteLength text)
      (String.ofList text) := by
  have hsource : source = String.ofList before ++ (String.ofList text ++ String.ofList after) := by
    rw [← String.ofList_append, ← String.ofList_append, ← h, String.ofList_toList]
  have hsize : ∀ part : List Char, byteLength part = (String.ofList part).toByteArray.size :=
    fun part => (utf8ByteSize_ofList part).symm
  have hstop : source.toList = (before ++ text) ++ after := by rw [h, List.append_assoc]
  refine ⟨?_, isValid_of_split h, byteLength_append before text ▸ isValid_of_split hstop⟩
  have hskip := @ByteArray.extract_append_size_add (String.ofList before).toByteArray
    (String.ofList text ++ String.ofList after).toByteArray 0 (byteLength text)
  rw [Nat.add_zero, ← hsize before] at hskip
  rw [hsource, String.toByteArray_append, hskip, String.toByteArray_append, hsize text,
    ByteArray.extract_append_eq_left rfl]

end Text

open TokenStream

/-- A token that is scanned stands in the source where it says. -/
theorem TokenStream.LocatedIn.between {source : String} {s next : TokenStream} {t : Token}
    (h : s.LocatedIn source.toList) (hscan : s.scan tokenTable = .ok (some (t, next))) :
    Text.Between source t.start t.stop t.raw := by
  obtain ⟨passed, hsource, hoffset, _, _⟩ := h
  obtain ⟨row, taken, rest, value, _, hsplit, _, rfl, rfl⟩ := scan_eq_some hscan
  rw [Row.split_append hsplit] at hsource
  simpa only [tokenAt, hoffset] using Text.Between.of_split hsource

section Front

variable {source : String} {ts : List Token} {s : TokenStream}

/-- A stream that is where it says has passed the bytes up to its offset. -/
theorem TokenStream.LocatedIn.exists_before (h : s.LocatedIn source.toList) :
    ∃ before : String, Text.Between source 0 s.offset before ∧
      source.toList = before.toList ++ s.rest ∧
      s.position = Position.start.advance before.toList := by
  obtain ⟨passed, hsource, hoffset, hposition, _⟩ := h
  have hbetween : Text.Between source 0 (0 + Text.byteLength passed) (String.ofList passed) :=
    Text.Between.of_split (show source.toList = [] ++ (passed ++ s.rest) from hsource)
  rw [Nat.zero_add, ← hoffset] at hbetween
  exact ⟨String.ofList passed, hbetween, by simpa using hsource, by simpa using hposition⟩

/-- The tokens that are passed from the front of a source make up the part of
it that the stream has passed. -/
theorem TokenStream.Passes.between (h : (ofText source).Passes ts s) :
    Text.Between source 0 s.offset (String.join (ts.map Token.raw)) := by
  obtain ⟨before, hbetween, hsource, _⟩ := (h.reaches.locatedIn (.ofText source)).exists_before
  have hrest : source.toList = (String.join (ts.map Token.raw)).toList ++ s.rest := h.rest
  have hsame := List.append_cancel_right (hsource.symm.trans hrest)
  rwa [String.toList_inj.mp hsame] at hbetween

/-- A stream that has passed the whole source has passed all its bytes. -/
theorem TokenStream.LocatedIn.offset_of_end (h : s.LocatedIn source.toList)
    (hend : s.rest = []) : s.offset = source.utf8ByteSize := by
  obtain ⟨passed, hsource, hoffset, _, _⟩ := h
  rw [hend, List.append_nil] at hsource
  rw [hoffset, ← hsource, ← Text.utf8ByteSize_ofList, String.ofList_toList]

end Front

/-- **Nothing is lost.**  Asking for lexemes from the front of a source gives,
after finitely many calls, the end or an error.  The lexemes given before that
are not empty, stand in the source where they say, and lie side by side from
its first byte on.  If the calls come to the end, the lexemes make up the whole
source; if they come to an error, they make up what stands before it. -/
theorem lexemes_lossless (source : String) :
    ∃ ts : List Token,
      (ofText source).answers (List.replicate ts.length .lexeme)
        = ts.map (fun t => .ok (some t)) ∧
      (∀ t ∈ ts, t.raw ≠ "" ∧ Text.Between source t.start t.stop t.raw) ∧
      (∀ t, ts.head? = some t → t.start = 0) ∧
      (ts.IsChain fun t u => u.start = t.stop) ∧
      ((((ofText source).afterCalls (List.replicate ts.length .lexeme)).nextLexeme.answer
            = .ok none ∧
          lexemes source = .ok ts ∧ String.join (ts.map Token.raw) = source ∧
          ∀ t, ts.getLast? = some t → t.stop = source.utf8ByteSize) ∨
        ∃ e, ((ofText source).afterCalls (List.replicate ts.length .lexeme)).nextLexeme.answer
            = .error e ∧
          lexemes source = .error e ∧
          Text.Between source 0 e.offset (String.join (ts.map Token.raw))) := by
  obtain ⟨ts, s, hpasses, hstops⟩ := exists_passes (ofText source)
  refine ⟨ts, hpasses.answers, ?_, fun t => hpasses.start_of_head, hpasses.contiguous, ?_⟩
  · intro t ht
    obtain ⟨s₁, s₂, hreaches, hscan⟩ := hpasses.of_mem ht
    refine ⟨?_, (hreaches.locatedIn (.ofText source)).between hscan⟩
    intro hempty
    exact (scan_rest hscan).2 (by simp [hempty])
  rw [hpasses.afterCalls]
  rcases hstops with ⟨hend, hall⟩ | ⟨e, hfails, hall⟩
  · have hrest := scan_eq_none_iff.mp hend
    refine Or.inl ⟨by rw [nextLexeme_of_end hend], hall, hpasses.join_eq hrest, ?_⟩
    intro t ht
    rw [hpasses.stop_of_last ht]
    exact (hpasses.reaches.locatedIn (.ofText source)).offset_of_end hrest
  · refine Or.inr ⟨e, by rw [nextLexeme_of_error hfails], hall, ?_⟩
    rw [(scan_error_place hfails).1]
    exact hpasses.between

/-- The accented letter takes two bytes.  The first source is all lexemes, and
the second breaks off at its last character. -/
theorem lexemes_lossless_accent :
    (∃ ts t, lexemes "aa 'é'" = .ok ts ∧ t ∈ ts ∧ t.start = 3 ∧ t.stop = 7 ∧
      Text.Between "aa 'é'" 3 7 t.raw ∧ String.join (ts.map Token.raw) = "aa 'é'") ∧
    (∃ ts : List Token, lexemes "aa 'é'~" = .error ⟨.unexpectedCharacter '~', 7, ⟨1, 7⟩⟩ ∧
      Text.Between "aa 'é'~" 0 7 (String.join (ts.map Token.raw))) := by
  constructor
  · have hlexemes : lexemes "aa 'é'" = .ok
        [⟨.identifier, .identifier, .text "aa", "aa", 0, 2, ⟨1, 1⟩⟩,
          ⟨.whitespace, .whiteSpace, .text " ", " ", 2, 3, ⟨1, 3⟩⟩,
          ⟨.literal, .char, .text "é", "'é'", 3, 7, ⟨1, 4⟩⟩] := by cbv
    obtain ⟨ts, _, hmem, _, _, ⟨_, hall, hjoin, _⟩ | ⟨e, _, hall, _⟩⟩ :=
      lexemes_lossless "aa 'é'"
    · obtain rfl := Except.ok.inj (hlexemes.symm.trans hall)
      refine ⟨_, _, hlexemes, List.mem_of_getLast? rfl, rfl, rfl, ?_, hjoin⟩
      exact (hmem _ (List.mem_of_getLast? rfl)).2
    · cases hlexemes.symm.trans hall
  · have hlexemes : lexemes "aa 'é'~"
        = .error ⟨.unexpectedCharacter '~', 7, ⟨1, 7⟩⟩ := by cbv
    obtain ⟨ts, _, _, _, _, ⟨_, hall, _, _⟩ | ⟨e, _, hall, hbetween⟩⟩ :=
      lexemes_lossless "aa 'é'~"
    · cases hlexemes.symm.trans hall
    · obtain rfl := Except.error.inj (hlexemes.symm.trans hall)
      exact ⟨ts, hlexemes, hbetween⟩

end TildeLang
