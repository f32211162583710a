import TildeLang.Diagnostic
import TildeLang.Proofs.Neighbours
import TildeLang.Proofs.Wording

/-!
# The excerpt of a diagnostic

A diagnostic shows the line of the source on which an error is, and a caret in the
row below it.  The line is found by its number and the caret by a column, and both
have been counted by a stream on its way through the source; so they are those of
the byte offset of the error.

The number of the line stands before it in a margin that is wide enough for three
digits.  The margin of the caret has a fixed width, so the caret stands below its
place as long as the number of the line has no more digits.

* `Error.ArisesAt` — the errors of a source, and their byte offsets;
* `lines_render` — the rows of a diagnostic;
* `diagnostic_excerpt` — the source row and the caret row;
* `caret_below_iff` — where the caret stands.
-/

namespace TildeLang

open TokenStream Text

/-! ### Where an error is -/

/-- The byte offset that an error tells of, where it has left a parser: its own, if it
is a lexical error, the start of the token at which a rule failed, or the length of the
source, if it had ended. -/
def Error.offsetIn (source : String) (p : Parser) : Error → Nat
  | lexical e => e.offset
  | grammar _ =>
      match p.lookahead with
      | some t => t.start
      | none => source.utf8ByteSize

/-- Reading a source as tokens, as a program or as a single expression ends in an error at
a byte offset. -/
inductive Error.ArisesAt (source : String) : Error → Nat → Prop
  | tokens {e : LexError} (h : tokenize source = .error e) :
      ArisesAt source (.lexical e) e.offset
  | program {e : Error} (h : parse source = .error e) :
      ArisesAt source e (e.offsetIn source (Parser.unset.parse source).2)
  | expression {e : Error} (h : parseExpression source = .error e) :
      ArisesAt source e (e.offsetIn source (Parser.unset.parseExpression source).2)

section Place

variable {source : String} {e : Error} {offset : Nat}

/-- The error can be told in one line, and a stream has come to its place. -/
structure Error.FoundAt (source : String) (e : Error) (offset : Nat) : Prop where
  oneLine : e.OneLine
  exists_stream : ∃ s : TokenStream, s.LocatedIn source.toList ∧ s.offset = offset ∧
    s.position = e.position

theorem foundAt_of_tokenize {e : LexError} (h : tokenize source = .error e) :
    (Error.lexical e).FoundAt source e.offset := by
  obtain ⟨s, hreaches, hscan⟩ := outlook_fault (tokenize_eq_error_iff.mp h)
  obtain ⟨hoffset, hposition⟩ := scan_error_place hscan
  exact ⟨scan_oneLine hscan, s, hreaches.located, hoffset.symm, hposition.symm⟩

theorem ParseError.MetIn.foundAt {e : ParseError} {p : Parser} (h : e.MetIn source p) :
    (Error.grammar e).FoundAt source ((Error.grammar e).offsetIn source p) := by
  refine ⟨ParseError.oneLine h.given, ?_⟩
  have hposition : e.position = p.position := h.reports.position
  unfold Error.offsetIn
  cases hahead : p.lookahead with
  | none =>
      have hend := h.within.ended hahead
      refine ⟨p.stream, h.within.located, h.within.located.offset_of_end hend, ?_⟩
      rw [Error.position, hposition, Cursor.position, hahead]
  | some t =>
      obtain ⟨before, houtlook⟩ := h.outlook
      have hmem : t ∈ (ofText source).outlook.1 := by
        simp [houtlook, Cursor.upcoming_of_lookahead hahead]
      obtain ⟨s, next, hreaches, hscan⟩ := mem_outlook hmem
      obtain ⟨hstart, _, hplace⟩ := scan_place hscan
      refine ⟨s, hreaches.located, hstart.symm, ?_⟩
      rw [Error.position, hposition, Cursor.position, hahead]
      exact hplace.symm

/-- **Where an error is.** -/
theorem Error.ArisesAt.foundAt (h : e.ArisesAt source offset) : e.FoundAt source offset := by
  cases h with
  | tokens h => exact foundAt_of_tokenize h
  | program h =>
      cases e with
      | lexical e => exact foundAt_of_tokenize (tokenize_of_parse_lexical h)
      | grammar e => exact (parse_metIn h).foundAt
  | expression h =>
      cases e with
      | lexical e => exact foundAt_of_tokenize (tokenize_of_parseExpression_lexical h)
      | grammar e => exact (parseExpression_metIn h).foundAt

end Place

/-! ### The rows of a diagnostic -/

namespace Diagnostic

/-- What stands before the source line: its number. -/
def margin (line : Nat) : List Char := (padLeft 3 (toString line)).toList ++ " | ".toList

/-- What stands before the caret and the blanks before it. -/
def caretMargin : List Char := "    | ".toList

/-- The rows of a diagnostic, with the line of the source that it shows. -/
def rows (file : String) (line : List Char) (e : Error) : List (List Char) :=
  [s!"error[{e.code}]: {e.message}".toList,
    s!"  --> {file}:{e.position.line}:{e.position.column}".toList,
    "   |".toList,
    margin e.position.line ++ line,
    caretMargin ++ indentation line e.position.column ++ ['^']] ++
  (e.help.map fun hint => s!"help: {hint}".toList).toList

variable {file source : String} {e : Error} {line : List Char}

theorem toList_render (file source : String) (e : Error) :
    (render file source e).toList
      = (rows file (sourceLine source e.position.line) e).flatMap (· ++ ['\n']) := by
  have hfeed : "\n".toList = ['\n'] := rfl
  have hend : (toString "\n").toList = ['\n'] := rfl
  have hbar : "   |\n".toList = "   |".toList ++ ['\n'] := rfl
  have hcaret : "^\n".toList = ['^'] ++ ['\n'] := rfl
  unfold render rows margin caretMargin
  cases e.help with
  | none =>
      simp only [String.toList_append, String.toList_ofList, List.append_assoc, hfeed, hend, hbar,
        hcaret, List.flatMap_cons, List.flatMap_nil, Option.map_none, Option.toList_none,
        List.append_nil]
      rfl
  | some hint =>
      simp only [String.toList_append, String.toList_ofList, List.append_assoc, hfeed, hend, hbar,
        hcaret, List.flatMap_append, List.flatMap_cons, List.flatMap_nil, Option.map_some,
        Option.toList_some, List.append_nil]

theorem unbroken_margin (line : Nat) : Unbroken (margin line) := by
  refine unbroken_append.mpr ⟨unbroken_concat ?_ (unbroken_toString line), by decide⟩
  rw [String.toList_ofList]
  intro c hc
  obtain rfl := List.eq_of_mem_replicate hc
  rfl

theorem unbroken_indentation (line : List Char) (column : Nat) :
    Unbroken (indentation line column) := by
  intro c hc
  obtain ⟨d, _, rfl⟩ := List.mem_map.mp hc
  split <;> rfl

/-- No row has a line end, if neither the error nor the name of the file has one. -/
theorem unbroken_rows (hfile : Unbroken file.toList) (hline : Unbroken line) (he : e.OneLine) :
    ∀ row ∈ rows file line e, Unbroken row := by
  have hheading : Unbroken s!"error[{e.code}]: {e.message}".toList := by
    have hcode : Unbroken e.code.toList := by
      cases e with
      | lexical _ => exact (by decide : Unbroken "E_LEX".toList)
      | grammar _ => exact (by decide : Unbroken "E_PARSE".toList)
    have hopened := unbroken_concat (a := "error[") (by decide) hcode
    exact unbroken_concat (unbroken_concat hopened (by decide)) he.message
  have hplace :
      Unbroken s!"  --> {file}:{e.position.line}:{e.position.column}".toList := by
    have hname := unbroken_concat (a := "  --> ") (by decide) hfile
    have hnumber := unbroken_concat (unbroken_concat (b := ":") hname (by decide))
      (unbroken_toString e.position.line)
    exact unbroken_concat (unbroken_concat hnumber (by decide))
      (unbroken_toString e.position.column)
  have hsource := unbroken_append.mpr ⟨unbroken_margin e.position.line, hline⟩
  have hcaret : Unbroken (caretMargin ++ indentation line e.position.column ++ ['^']) :=
    unbroken_append.mpr
      ⟨unbroken_append.mpr ⟨by decide, unbroken_indentation _ _⟩, by decide⟩
  have hhelp : ∀ row ∈ (e.help.map fun hint => s!"help: {hint}".toList).toList,
      Unbroken row := by
    intro row hrow
    obtain ⟨hint, hhint, rfl⟩ := Option.map_eq_some_iff.mp (Option.mem_toList.mp hrow)
    exact unbroken_concat (by decide) (he.help hint hhint)
  unfold rows
  rw [List.forall_mem_append]
  refine ⟨?_, hhelp⟩
  simp only [List.forall_mem_cons]
  exact ⟨hheading, hplace, by decide, hsource, hcaret, by simp⟩

/-- **The rows are the lines.**  The text of a diagnostic consists of its rows, each of
which is a line. -/
theorem lines_render (hfile : Unbroken file.toList) (he : e.OneLine)
    (hline : sourceLine source e.position.line = line) (hunbroken : Unbroken line) :
    lines (render file source e).toList = rows file line e ++ [[]] := by
  subst hline
  rw [toList_render]
  exact lines_rows (unbroken_rows hfile hunbroken he)

theorem return_not_mem_render (hfile : Unbroken file.toList) (he : e.OneLine)
    (hline : sourceLine source e.position.line = line) (hunbroken : Unbroken line) :
    '\r' ∉ (render file source e).toList := by
  subst hline
  rw [toList_render]
  intro hmem
  obtain ⟨row, hrow, hreturn⟩ := List.mem_flatMap.mp hmem
  rcases List.mem_append.mp hreturn with hreturn | hreturn
  · cases unbroken_rows hfile hunbroken he row hrow '\r' hreturn
  · simp at hreturn

theorem length_rows (file : String) (line : List Char) (e : Error) :
    (rows file line e).length = if e.help.isSome then 6 else 5 := by
  unfold rows
  cases e.help <;> rfl

end Diagnostic

/-! ### The source row and the caret row -/

section Excerpt

variable {file source : String} {e : Error} {offset : Nat}

/-- **The line that is shown.**  It is the line on which the offset of the error lies, and
the column counts the characters before the offset. -/
theorem Error.FoundAt.exists_excerpt (h : e.FoundAt source offset) :
    ∃ start stop ahead behind,
      LineAt source offset start stop ∧
      Between source start stop (String.ofList (ahead ++ behind)) ∧
      Between source start offset (String.ofList ahead) ∧
      Between source offset stop (String.ofList behind) ∧
      Diagnostic.sourceLine source e.position.line = ahead ++ behind ∧
      Unbroken (ahead ++ behind) ∧ ahead.length + 1 = e.position.column := by
  obtain ⟨s, hlocated, rfl, hposition⟩ := h.exists_stream
  obtain ⟨before, ahead, behind, after, hsource, hframed, hoffset, hplace⟩ := hlocated.exists_line
  rw [← hposition, hplace, hoffset]
  refine ⟨byteLength before, byteLength (before ++ (ahead ++ behind)), ahead, behind,
    hframed.lineAt hsource, ?_, ?_, ?_, ?_, hframed.unbroken, Nat.add_comm _ _⟩
  · rw [byteLength_append]
    exact .of_split hsource
  · rw [byteLength_append]
    exact .of_split (by rw [hsource, List.append_assoc])
  · rw [← List.append_assoc, byteLength_append (before ++ ahead)]
    exact .of_split (by rw [hsource, List.append_assoc, List.append_assoc])
  · simp only [Diagnostic.sourceLine, Nat.add_sub_cancel_left, hsource, hframed.getElem?_lines,
      Option.getD_some]

/-- The blanks and tabs before the caret are below the characters before the offset. -/
theorem indentation_of_column {ahead : List Char} {column : Nat}
    (h : ahead.length + 1 = column) (behind : List Char) :
    Diagnostic.indentation (ahead ++ behind) column
      = ahead.map fun c => if c = '\t' then '\t' else ' ' := by
  subst h
  rw [Diagnostic.indentation, Nat.add_sub_cancel, List.take_left]

/-- **The excerpt.**  For every error of a source, the text of its diagnostic has five
lines, or six with a hint, and no carriage return.  The fourth shows the line of the source
on which the offset of the error lies.  In the fifth, the caret comes after as many
characters as the column says: these are the characters of the line before the offset,
with blanks for all but the tabs. -/
theorem diagnostic_excerpt (file source : String) (e : Error) (offset : Nat)
    (hfile : Unbroken file.toList) (he : e.ArisesAt source offset) :
    ∃ start stop line ahead rows,
      LineAt source offset start stop ∧
      Between source start stop line ∧ Between source start offset ahead ∧
      lines (Diagnostic.render file source e).toList = rows ++ [[]] ∧
      rows[3]? = some (Diagnostic.margin e.position.line ++ line.toList) ∧
      rows[4]? = some (Diagnostic.caretMargin ++
        (ahead.toList.map fun c => if c = '\t' then '\t' else ' ') ++ ['^']) ∧
      ahead.toList.length + 1 = e.position.column ∧
      rows.length = (if e.help.isSome then 6 else 5) ∧
      '\r' ∉ (Diagnostic.render file source e).toList := by
  have hfound := he.foundAt
  obtain ⟨start, stop, ahead, behind, hlineAt, hline, hahead, _, hshown, hunbroken, hcolumn⟩ :=
    hfound.exists_excerpt
  refine ⟨start, stop, _, _, Diagnostic.rows file (ahead ++ behind) e, hlineAt, hline, hahead,
    Diagnostic.lines_render hfile hfound.oneLine hshown hunbroken, ?_, ?_, ?_,
    Diagnostic.length_rows _ _ _,
    Diagnostic.return_not_mem_render hfile hfound.oneLine hshown hunbroken⟩
  · rw [String.toList_ofList]
    rfl
  · rw [String.toList_ofList, ← indentation_of_column hcolumn behind]
    rfl
  · rw [String.toList_ofList, hcolumn]

/-- There is a tab before the offset, and a letter of two bytes, and the line lies between
line ends of two characters. -/
theorem diagnostic_excerpt_tab :
    let source := "aa =\r\n\t'é' ~\r\nbb"
    let e : Error := .lexical ⟨.unexpectedCharacter '~', 12, ⟨2, 6⟩⟩
    Unbroken "app.tilde".toList ∧ e.ArisesAt source 12 ∧
      ∃ start stop line ahead rows,
        LineAt source 12 start stop ∧
        Between source start stop line ∧ Between source start 12 ahead ∧
        lines (Diagnostic.render "app.tilde" source e).toList = rows ++ [[]] ∧
        rows[3]? = some ("  2 | ".toList ++ line.toList) ∧
        rows[4]? = some ("    | ".toList ++
          (ahead.toList.map fun c => if c = '\t' then '\t' else ' ') ++ ['^']) ∧
        ahead.toList.length + 1 = 6 ∧ rows.length = 5 ∧
        '\r' ∉ (Diagnostic.render "app.tilde" source e).toList := by
  have hparse : parse "aa =\r\n\t'é' ~\r\nbb"
      = .error (.lexical ⟨.unexpectedCharacter '~', 12, ⟨2, 6⟩⟩) := by cbv
  have hfile : Unbroken "app.tilde".toList := by decide
  exact ⟨hfile, .program hparse, diagnostic_excerpt _ _ _ _ hfile (.program hparse)⟩

/-! ### Where the caret stands -/

/-- The caret stands below the place of an error: there are as many characters before it
in its row as there are before the place in the row of the source. -/
def Diagnostic.CaretBelow (file source : String) (e : Error) (offset : Nat) : Prop :=
  ∃ start stop ahead behind margin below,
    LineAt source offset start stop ∧
    Between source start offset ahead ∧ Between source offset stop behind ∧
    (lines (render file source e).toList)[3]?
      = some (margin ++ ahead.toList ++ behind.toList) ∧
    (lines (render file source e).toList)[4]? = some (below ++ ['^']) ∧
    below.length = (margin ++ ahead.toList).length

/-- What stands between two offsets is one text. -/
theorem Text.Between.unique {start stop : Nat} {text text' : String}
    (h : Between source start stop text) (h' : Between source start stop text') :
    text = text' :=
  String.toByteArray_inj.mp (h.bytes.trans h'.bytes.symm)

/-- The caret stands below its place if both margins have one width. -/
theorem caretBelow_iff_length (hfile : Unbroken file.toList) (he : e.ArisesAt source offset) :
    Diagnostic.CaretBelow file source e offset ↔
      Diagnostic.caretMargin.length = (Diagnostic.margin e.position.line).length := by
  have hfound := he.foundAt
  obtain ⟨start, stop, ahead, behind, hlineAt, _, hahead, hbehind, hshown, hunbroken, hcolumn⟩ :=
    hfound.exists_excerpt
  have hlines := Diagnostic.lines_render hfile hfound.oneLine hshown hunbroken
  have hsource : (lines (Diagnostic.render file source e).toList)[3]?
      = some (Diagnostic.margin e.position.line ++ (ahead ++ behind)) := by
    rw [hlines]
    rfl
  have hcaret : (lines (Diagnostic.render file source e).toList)[4]?
      = some (Diagnostic.caretMargin ++
        (ahead.map fun c => if c = '\t' then '\t' else ' ') ++ ['^']) := by
    rw [hlines, ← indentation_of_column hcolumn behind]
    rfl
  constructor
  · rintro ⟨start', stop', ahead', behind', margin, below, hlineAt', hahead', hbehind', hrow,
      hrow', hlength⟩
    -- The offset and the source determine the line and its parts, and so the rows do the rest.
    obtain ⟨rfl, rfl⟩ := hlineAt.unique hlineAt'
    obtain rfl := hahead.unique hahead'
    obtain rfl := hbehind.unique hbehind'
    rw [hsource, Option.some.injEq, String.toList_ofList, String.toList_ofList,
      List.append_assoc, List.append_left_inj] at hrow
    rw [hcaret, Option.some.injEq, List.append_left_inj] at hrow'
    subst hrow hrow'
    simpa using hlength
  · intro hlength
    refine ⟨start, stop, _, _, Diagnostic.margin e.position.line, _, hlineAt, hahead, hbehind, ?_,
      hcaret, ?_⟩
    · rw [hsource, String.toList_ofList, String.toList_ofList, List.append_assoc]
    · simp [hlength]

/-- Three digits fit into the margin. -/
theorem length_margin (line : Nat) :
    (Diagnostic.margin line).length = max 3 (Nat.toDigits 10 line).length + 3 := by
  have hbar : " | ".toList.length = 3 := rfl
  rw [Diagnostic.margin, Diagnostic.padLeft, Nat.toString_eq_ofList_toDigits]
  simp only [String.length_ofList, String.toList_append, String.toList_ofList, List.length_append,
    List.length_replicate, hbar]
  omega

/-- **Where the caret stands.**  It stands below the place of an error exactly if the number
of the line has no more than three digits. -/
theorem caret_below_iff (file source : String) (e : Error) (offset : Nat)
    (hfile : Unbroken file.toList) (he : e.ArisesAt source offset) :
    Diagnostic.CaretBelow file source e offset ↔ e.position.line < 1000 := by
  have hdigits : (Nat.toDigits 10 e.position.line).length ≤ 3 ↔ e.position.line < 1000 :=
    Nat.length_toDigits_le_iff (by decide) (by decide)
  have hwidth : Diagnostic.caretMargin.length = 6 := rfl
  rw [caretBelow_iff_length hfile he, length_margin, ← hdigits]
  omega

theorem caret_below_second :
    let e : Error := .lexical ⟨.unexpectedCharacter '~', 6, ⟨2, 2⟩⟩
    Unbroken "app.tilde".toList ∧ e.ArisesAt "aa =\n ~" 6 ∧ e.position.line < 1000 ∧
      Diagnostic.CaretBelow "app.tilde" "aa =\n ~" e 6 := by
  have hparse : parse "aa =\n ~"
      = .error (.lexical ⟨.unexpectedCharacter '~', 6, ⟨2, 2⟩⟩) := by cbv
  have hfile : Unbroken "app.tilde".toList := by decide
  have hline : 2 < 1000 := by decide
  exact ⟨hfile, .program hparse, hline,
    (caret_below_iff _ _ _ _ hfile (.program hparse)).mpr hline⟩

/-- After some line feeds, a tilde is refused in the first column. -/
theorem outlook_feeds (n : Nat) {s : TokenStream} (hcolumn : s.position.column = 1)
    (h : s.rest = List.replicate n '\n' ++ ['~']) :
    s.outlook.2 = some ⟨.unexpectedCharacter '~', s.offset + n, ⟨s.position.line + n, 1⟩⟩ := by
  induction n generalizing s with
  | zero =>
      have hscan : s.scan tokenTable
          = .error ⟨.unexpectedCharacter '~', s.offset, s.position⟩ := by
        have hnone : firstMatch? tokenTable ['~'] = none := by decide
        simp only [scan, h, List.replicate_zero, List.nil_append, hnone]
      rw [outlook_of_error (nextToken_of_error hscan), ← hcolumn]
      rfl
  | succ n ih =>
      let row : Row := .plain .whitespace .lineEnd .lineEnd
      have hsplit : row.split s.rest = some (['\n'], List.replicate n '\n' ++ ['~']) := by
        rw [h]
        rfl
      have hmatch := firstMatch?_of_isForemost (by decide) (by decide) hsplit
      have hscan := scan_eq_some_iff.mpr ⟨_, _, _, _, hmatch, rfl, rfl, rfl⟩
      have hoffset : (s.after row ['\n'] (List.replicate n '\n' ++ ['~'])).offset + n
          = s.offset + (n + 1) := Nat.add_right_comm s.offset 1 n
      have hline : (s.after row ['\n'] (List.replicate n '\n' ++ ['~'])).position.line + n
          = s.position.line + (n + 1) := Nat.add_right_comm s.position.line 1 n
      rw [outlook_of_trivia hscan rfl, ih rfl rfl, hoffset, hline]

theorem tokenize_feeds (n : Nat) :
    tokenize (String.ofList (List.replicate n '\n' ++ ['~']))
      = .error ⟨.unexpectedCharacter '~', n, ⟨n + 1, 1⟩⟩ := by
  have hfault := outlook_feeds n (s := ofText (String.ofList (List.replicate n '\n' ++ ['~'])))
    rfl String.toList_ofList
  have hoffset : (ofText (String.ofList (List.replicate n '\n' ++ ['~']))).offset + n = n :=
    Nat.zero_add n
  have hline : (ofText (String.ofList (List.replicate n '\n' ++ ['~']))).position.line + n
      = n + 1 := Nat.add_comm 1 n
  rw [hoffset, hline] at hfault
  exact tokenize_eq_error_iff.mpr hfault

/-- **Astray.**  On the thousandth line, the caret does not stand below its place. -/
theorem caret_astray :
    let source := String.ofList (List.replicate 999 '\n' ++ ['~'])
    let e : Error := .lexical ⟨.unexpectedCharacter '~', 999, ⟨1000, 1⟩⟩
    Unbroken "app.tilde".toList ∧ e.ArisesAt source 999 ∧
      ¬Diagnostic.CaretBelow "app.tilde" source e 999 := by
  have hfile : Unbroken "app.tilde".toList := by decide
  have htokens := tokenize_feeds 999
  refine ⟨hfile, .tokens htokens, ?_⟩
  rw [caretBelow_iff_length hfile (.tokens htokens)]
  decide

end Excerpt

end TildeLang
