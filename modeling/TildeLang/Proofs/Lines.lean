import TildeLang.Proofs.Positions

/-!
# The lines of a source

A line of a text is what stands between two line ends, or between a line end and
an end of the text.  Lines are found in two ways: cutting a text gives all its
lines in order, and a byte offset lies on the line between the last line end
before it and the next one.  A stream that stands somewhere in a source has
counted the line ends that it has passed, so the line of that number is the one
on which its offset lies.

* `lines_row`, `getElem?_lines` — the lines that cutting a text gives;
* `LineEndAt`, `LineAt` — line ends and lines by byte offsets;
* `LineAt.unique` — an offset lies on one line;
* `LocatedIn.exists_line` — the line on which a stream stands.
-/

namespace TildeLang

namespace Text

/-- The text has no line end. -/
def Unbroken (text : List Char) : Prop := ∀ c ∈ text, endsLine c = false

/-! ### Cutting a text at its line ends -/

section Lines

variable {c : Char} {text row before rest : List Char}

theorem lines_cons_of_ends (hpair : ∀ more, c = '\r' → rest = '\n' :: more → False)
    (hc : endsLine c = true) : lines (c :: rest) = [] :: lines rest := by
  rw [lines.eq_3 _ _ hpair, if_pos hc]

theorem lines_cons_of_not_ends {line : List Char} {more : List (List Char)}
    (hc : endsLine c = false) (h : lines rest = line :: more) :
    lines (c :: rest) = (c :: line) :: more := by
  have hpair : ∀ more, c = '\r' → rest = '\n' :: more → False := by
    rintro _ rfl
    cases hc
  rw [lines.eq_3 _ _ hpair, if_neg (by simp [hc]), h]

/-- The first line goes up to the first line end. -/
theorem exists_lines_eq_cons (text : List Char) :
    ∃ more, lines text = text.takeWhile (!endsLine ·) :: more := by
  induction text with
  | nil => exact ⟨[], rfl⟩
  | cons c rest ih =>
      by_cases hc : endsLine c = true
      · rw [List.takeWhile_cons_of_neg (by simp [hc])]
        by_cases hpair : c = '\r' ∧ ∃ more, rest = '\n' :: more
        · obtain ⟨rfl, more, rfl⟩ := hpair
          exact ⟨lines more, by rw [lines]⟩
        · have hlone : ∀ more, c = '\r' → rest = '\n' :: more → False :=
            fun more hreturn hfeed => hpair ⟨hreturn, more, hfeed⟩
          exact ⟨lines rest, lines_cons_of_ends hlone hc⟩
      · obtain ⟨more, hlines⟩ := ih
        rw [Bool.not_eq_true] at hc
        rw [List.takeWhile_cons_of_pos (by simp [hc])]
        exact ⟨more, lines_cons_of_not_ends hc hlines⟩

/-- A text without line ends is the first line of a text that goes on with a line
feed after it. -/
theorem lines_row (hrow : Unbroken row) (rest : List Char) :
    lines (row ++ '\n' :: rest) = row :: lines rest := by
  induction row with
  | nil => exact lines_cons_of_ends (by simp) rfl
  | cons c row ih =>
      obtain ⟨hc, hrow⟩ := List.forall_mem_cons.mp hrow
      exact lines_cons_of_not_ends hc (ih hrow)

/-- Texts without line ends that each end in a line feed are the lines of the whole, before
an empty one. -/
theorem lines_rows {rows : List (List Char)} (h : ∀ row ∈ rows, Unbroken row) :
    lines (rows.flatMap (· ++ ['\n'])) = rows ++ [[]] := by
  induction rows with
  | nil => rfl
  | cons row rows ih =>
      obtain ⟨hrow, hrows⟩ := List.forall_mem_cons.mp h
      rw [List.flatMap_cons, List.append_assoc, List.singleton_append, lines_row hrow, ih hrows]
      rfl

theorem lineEnds_eq_zero (h : Unbroken text) : lineEnds text = 0 := by
  induction text with
  | nil => rfl
  | cons c text ih =>
      obtain ⟨hc, htext⟩ := List.forall_mem_cons.mp h
      rw [lineEnds_cons, ih htext, hc]
      · rfl
      · rintro _ rfl
        cases hc

theorem lineEnds_pos (hmem : c ∈ text) (hc : endsLine c = true) : 0 < lineEnds text := by
  induction text with
  | nil => cases hmem
  | cons d rest ih =>
      by_cases hpair : d = '\r' ∧ ∃ more, rest = '\n' :: more
      · obtain ⟨rfl, more, rfl⟩ := hpair
        rw [lineEnds_pair]
        omega
      · rw [lineEnds_cons fun more hreturn hfeed => hpair ⟨hreturn, more, hfeed⟩]
        rcases List.mem_cons.mp hmem with rfl | hrest
        · rw [if_pos hc]
          omega
        · have hpos := ih hrest
          omega

/-- **The line after some line ends.**  What comes after a part of a text that ends
in a line end is on a line of its own, and its number is that of the line ends in
that part. -/
theorem getElem?_lines (hends : ∀ c, before.getLast? = some c → endsLine c = true)
    (hcut : before.getLast? = some '\r' → text.head? ≠ some '\n') :
    (lines (before ++ text))[lineEnds before]? = some (text.takeWhile (!endsLine ·)) := by
  fun_induction lines before with
  | case1 =>
      obtain ⟨more, hlines⟩ := exists_lines_eq_cons text
      simp [lineEnds, linePairs, hlines]
  | case2 rest ih =>
      rw [lineEnds_pair, List.cons_append, List.cons_append, lines]
      exact ih (fun d hd => hends d (by simp [List.getLast?_cons, hd]))
        fun hd => hcut (by simp [List.getLast?_cons, hd])
  | case3 c rest hpair hc ih =>
      have hpair' : ∀ more, c = '\r' → rest ++ text = '\n' :: more → False := by
        rintro more rfl happ
        cases rest with
        | nil => exact hcut rfl (by simpa using congrArg List.head? happ)
        | cons d rest =>
            obtain ⟨rfl, _⟩ := List.cons.inj happ
            exact hpair rest rfl rfl
      rw [lineEnds_cons hpair, if_pos hc, List.cons_append, lines_cons_of_ends hpair' hc]
      exact ih (fun d hd => hends d (by simp [List.getLast?_cons, hd]))
        fun hd => hcut (by simp [List.getLast?_cons, hd])
  | case4 c rest hpair hc hnil ih =>
      obtain ⟨more, hlines⟩ := exists_lines_eq_cons rest
      cases hnil.symm.trans hlines
  | case5 c rest hpair hc line more hlines ih =>
      -- The part does not end here, so there is a line end in the rest of it.
      rw [Bool.not_eq_true] at hc
      obtain ⟨d, hd⟩ : ∃ d, rest.getLast? = some d := by
        cases rest with
        | nil => cases hc.symm.trans (hends c rfl)
        | cons d rest => exact ⟨_, List.getLast?_eq_some_getLast (List.cons_ne_nil d rest)⟩
      have hends' : ∀ d, rest.getLast? = some d → endsLine d = true :=
        fun d hd => hends d (by simp [List.getLast?_cons, hd])
      have hpos := lineEnds_pos (List.mem_of_getLast? hd) (hends' d hd)
      have hline := ih hends' fun hd => hcut (by simp [List.getLast?_cons, hd])
      obtain ⟨more', hlines'⟩ := exists_lines_eq_cons (rest ++ text)
      rw [lineEnds_cons hpair, if_neg (by simp [hc]), Nat.add_zero, List.cons_append,
        lines_cons_of_not_ends hc hlines']
      obtain ⟨k, hk⟩ : ∃ k, lineEnds rest = k + 1 := ⟨lineEnds rest - 1, by omega⟩
      rw [hlines', hk] at hline
      rwa [hk]

end Lines

/-! ### Lines by byte offsets -/

/-- A line end, with what stands before and after it.  A carriage return and the
line feed right after it are one line end. -/
inductive LineEnd : List Char → List Char → List Char → Prop
  | pair (before after : List Char) : LineEnd before ['\r', '\n'] after
  | loneReturn {before after : List Char} (h : after.head? ≠ some '\n') :
      LineEnd before ['\r'] after
  | loneFeed {before after : List Char} (h : before.getLast? ≠ some '\r') :
      LineEnd before ['\n'] after

/-- A line end of a source takes the bytes between two offsets. -/
def LineEndAt (source : String) (start stop : Nat) : Prop :=
  ∃ before mark after, source.toList = before ++ (mark ++ after) ∧ LineEnd before mark after ∧
    start = byteLength before ∧ stop = byteLength before + byteLength mark

/-- The line on which a byte offset of a source lies.  It begins with the source, or where
the last line end stops that does so at or before the offset; and it goes up to the next
line end, or to the end of the source. -/
structure LineAt (source : String) (offset start stop : Nat) : Prop where
  start_le : start ≤ offset
  le_stop : offset ≤ stop
  begins : start = 0 ∨ ∃ a, LineEndAt source a start
  last : ∀ a b, LineEndAt source a b → b ≤ offset → b ≤ start
  ends : stop = source.utf8ByteSize ∨ ∃ b, LineEndAt source stop b
  next : ∀ a b, LineEndAt source a b → offset < b → stop ≤ a

section Offsets

variable {source : String} {before line after mark x y : List Char}
  {offset start stop start' stop' : Nat}

theorem byteLength_toList (source : String) : byteLength source.toList = source.utf8ByteSize := by
  rw [← utf8ByteSize_ofList, String.ofList_toList]

theorem LineEnd.ends (h : LineEnd before mark after) : ∀ c ∈ mark, endsLine c = true := by
  cases h <;> simp [endsLine]

theorem LineEnd.ne_nil (h : LineEnd before mark after) : mark ≠ [] := by
  cases h <;> simp

theorem LineEndAt.lt (h : LineEndAt source start stop) : start < stop := by
  obtain ⟨before, mark, after, _, hend, rfl, rfl⟩ := h
  have hpos := byteLength_pos hend.ne_nil
  omega

theorem LineEndAt.le_size (h : LineEndAt source start stop) :
    stop ≤ source.utf8ByteSize := by
  obtain ⟨before, mark, after, hsource, _, _, rfl⟩ := h
  rw [← byteLength_toList, hsource, byteLength_append, byteLength_append]
  omega

theorem LineAt.start_le_start (h : LineAt source offset start stop)
    (h' : LineAt source offset start' stop') : start ≤ start' := by
  rcases h.begins with rfl | ⟨a, hend⟩
  · exact Nat.zero_le _
  · exact h'.last a start hend h.start_le

theorem LineAt.stop_le_stop (h : LineAt source offset start stop)
    (h' : LineAt source offset start' stop') : stop ≤ stop' := by
  rcases h'.ends with rfl | ⟨b, hend'⟩
  · rcases h.ends with rfl | ⟨b, hend⟩
    · exact Nat.le_refl _
    · exact Nat.le_of_lt (Nat.lt_of_lt_of_le hend.lt hend.le_size)
  · exact h.next stop' b hend' (Nat.lt_of_le_of_lt h'.le_stop hend'.lt)

/-- **An offset lies on one line.** -/
theorem LineAt.unique (h : LineAt source offset start stop)
    (h' : LineAt source offset start' stop') : start = start' ∧ stop = stop' :=
  ⟨Nat.le_antisymm (h.start_le_start h') (h'.start_le_start h),
    Nat.le_antisymm (h.stop_le_stop h') (h'.stop_le_stop h)⟩

/-- A line of a text, with what stands before and after it.  It is not the empty text
between a carriage return and its line feed. -/
structure Framed (before line after : List Char) : Prop where
  unbroken : Unbroken line
  opens : ∀ c, before.getLast? = some c → endsLine c = true
  closes : ∀ c, after.head? = some c → endsLine c = true
  cut : before.getLast? = some '\r' → (line ++ after).head? ≠ some '\n'

theorem eq_of_endsLine {c : Char} (hc : endsLine c = true) : c = '\r' ∨ c = '\n' := by
  simpa [endsLine] using hc

namespace Framed

/-- A line begins with the text or after a line end. -/
theorem begins (h : Framed before line after) :
    before = [] ∨ ∃ front mark, before = front ++ mark ∧ LineEnd front mark (line ++ after) := by
  rcases List.eq_nil_or_concat' before with rfl | ⟨front, c, rfl⟩
  · exact Or.inl rfl
  right
  rcases eq_of_endsLine (h.opens c (by simp)) with rfl | rfl
  · exact ⟨front, ['\r'], rfl, .loneReturn (h.cut (by simp))⟩
  · by_cases hreturn : front.getLast? = some '\r'
    · obtain ⟨first, rfl⟩ := List.getLast?_eq_some_iff.mp hreturn
      exact ⟨first, ['\r', '\n'], by simp, .pair _ _⟩
    · exact ⟨front, ['\n'], rfl, .loneFeed hreturn⟩

/-- It goes up to a line end or to the end of the text. -/
theorem ends (h : Framed before line after) :
    after = [] ∨ ∃ mark rest, after = mark ++ rest ∧ LineEnd (before ++ line) mark rest := by
  cases after with
  | nil => exact Or.inl rfl
  | cons c rest =>
      right
      rcases eq_of_endsLine (h.closes c rfl) with rfl | rfl
      · by_cases hfeed : rest.head? = some '\n'
        · obtain ⟨more, rfl⟩ : ∃ more, rest = '\n' :: more := by
            cases rest with
            | nil => cases hfeed
            | cons d more => exact ⟨more, by simpa using hfeed⟩
          exact ⟨['\r', '\n'], more, rfl, .pair _ _⟩
        · exact ⟨['\r'], rest, rfl, .loneReturn hfeed⟩
      · refine ⟨['\n'], rest, rfl, .loneFeed fun hreturn => ?_⟩
        rcases List.eq_nil_or_concat' line with rfl | ⟨front, d, rfl⟩
        · exact h.cut (by simpa using hreturn) rfl
        · have hd := h.unbroken '\r' (by
            have hlast : d = '\r' := by simpa [← List.append_assoc] using hreturn
            simp [hlast])
          cases hd

/-- A line end that begins in a line begins at its end. -/
theorem le_of_inside (h : Framed before line after) (hmark : LineEnd x mark y) {m : List Char}
    (heq : m ++ (mark ++ y) = line ++ after) : byteLength line ≤ byteLength m := by
  rcases List.append_eq_append_iff.mp heq with ⟨k, rfl, hk⟩ | ⟨k, rfl, -⟩
  · cases k with
    | nil => simp
    | cons c k =>
        -- The first character of the line end would be in the line.
        obtain ⟨d, more, rfl⟩ := List.exists_cons_of_ne_nil hmark.ne_nil
        obtain ⟨rfl, -⟩ := List.cons.inj hk
        have hends := hmark.ends d List.mem_cons_self
        rw [h.unbroken d (by simp)] at hends
        cases hends
  · simp

/-- **Line ends and lines lie side by side.**  A line end of the text is before a line or
after it. -/
theorem apart (h : Framed before line after) (hmark : LineEnd x mark y)
    (heq : x ++ (mark ++ y) = before ++ (line ++ after)) :
    byteLength x + byteLength mark ≤ byteLength before ∨
      byteLength before + byteLength line ≤ byteLength x := by
  rcases List.append_eq_append_iff.mp heq with ⟨m, rfl, hm⟩ | ⟨m, rfl, hm⟩
  · cases m with
    | nil =>
        right
        simpa using h.le_of_inside hmark (m := []) hm
    | cons c m =>
        left
        -- It begins before the line.  If it did not stop there, the line would begin between a
        -- carriage return and its line feed.
        cases hmark with
        | pair =>
            simp only [List.cons_append, List.nil_append, List.cons.injEq] at hm
            obtain ⟨rfl, hm⟩ := hm
            cases m with
            | nil =>
                have hfeed : (line ++ after).head? = some '\n' := by
                  rw [← List.nil_append (line ++ after), ← hm]
                  rfl
                exact absurd hfeed (h.cut (by simp))
            | cons d m =>
                simp only [List.cons_append, List.cons.injEq] at hm
                obtain ⟨rfl, -⟩ := hm
                simp
        | loneReturn =>
            obtain ⟨rfl, -⟩ := List.cons.inj hm
            simp
        | loneFeed =>
            obtain ⟨rfl, -⟩ := List.cons.inj hm
            simp
  · right
    have hle := h.le_of_inside hmark hm.symm
    simpa using hle

/-- The number of a line is that of the line ends before it. -/
theorem getElem?_lines (h : Framed before line after) :
    (lines (before ++ (line ++ after)))[lineEnds before]? = some line := by
  have hstops : after.takeWhile (!endsLine ·) = [] := by
    cases after with
    | nil => rfl
    | cons c rest => exact List.takeWhile_cons_of_neg (by simp [h.closes c rfl])
  have hline : (line ++ after).takeWhile (!endsLine ·) = line := by
    rw [List.takeWhile_append_of_pos (by simpa [Unbroken] using h.unbroken), hstops,
      List.append_nil]
  rw [Text.getElem?_lines h.opens h.cut, hline]

theorem apart_at (h : Framed before line after)
    (hsource : source.toList = before ++ (line ++ after)) (hend : LineEndAt source start stop) :
    stop ≤ byteLength before ∨ byteLength (before ++ line) ≤ start := by
  obtain ⟨x, mark, y, hsource', hmark, rfl, rfl⟩ := hend
  rw [byteLength_append]
  exact h.apart hmark (hsource'.symm.trans hsource)

/-- The line at an offset, from what stands before and after it. -/
theorem lineAt {ahead behind : List Char} (h : Framed before (ahead ++ behind) after)
    (hsource : source.toList = before ++ (ahead ++ behind ++ after)) :
    LineAt source (byteLength (before ++ ahead)) (byteLength before)
      (byteLength (before ++ (ahead ++ behind))) := by
  have hstart : byteLength before ≤ byteLength (before ++ ahead) := by simp
  have hstop : byteLength (before ++ ahead) ≤ byteLength (before ++ (ahead ++ behind)) := by simp
  refine ⟨hstart, hstop, ?_, ?_, ?_, ?_⟩
  · rcases h.begins with rfl | ⟨front, mark, rfl, hmark⟩
    · exact Or.inl rfl
    · exact Or.inr ⟨_, front, mark, _, by simpa using hsource, hmark, rfl, by simp⟩
  · intro a b hend hle
    have hlt := hend.lt
    have happart := h.apart_at hsource hend
    omega
  · rcases h.ends with rfl | ⟨mark, rest, rfl, hmark⟩
    · left
      rw [← byteLength_toList, hsource, List.append_nil]
    · exact Or.inr ⟨_, _, mark, rest, by simpa using hsource, hmark, rfl, rfl⟩
  · intro a b hend hlt
    have happart := h.apart_at hsource hend
    omega

end Framed

end Offsets

/-- Line ends add up, unless the cut separates a carriage return from its line feed. -/
theorem lineEnds_append {a b : List Char}
    (hcut : a.getLast? = some '\r' → b.head? ≠ some '\n') :
    lineEnds (a ++ b) = lineEnds a + lineEnds b := by
  have hline := congrArg Position.line (Position.advance_append .start a b hcut)
  rw [Position.line_advance, Position.line_advance, Position.line_advance] at hline
  omega

/-- Before its last line, a text is empty or ends in a line end. -/
theorem exists_before_lastLine (text : List Char) :
    ∃ before, text = before ++ lastLine text ∧ Unbroken (lastLine text) ∧
      ∀ c, before.getLast? = some c → endsLine c = true := by
  refine ⟨text.rdropWhile (!endsLine ·), List.rdropWhile_append_rtakeWhile.symm, ?_, ?_⟩
  · intro c hc
    simpa using List.mem_rtakeWhile_imp hc
  · intro c hc
    have hne : text.rdropWhile (!endsLine ·) ≠ [] := by
      intro hnil
      simp [hnil] at hc
    have hlast := List.rdropWhile_last_not (!endsLine ·) text hne
    rw [List.getLast?_eq_some_getLast hne, Option.some.injEq] at hc
    simpa [hc] using hlast

end Text

open Text

/-- **Where a stream stands in its line.**  It has counted the line ends before the line,
and the characters of the line that it has passed. -/
theorem TokenStream.LocatedIn.exists_line {source : List Char} {s : TokenStream}
    (h : s.LocatedIn source) :
    ∃ before ahead behind after, source = before ++ (ahead ++ behind ++ after) ∧
      Framed before (ahead ++ behind) after ∧ s.offset = byteLength (before ++ ahead) ∧
      s.position = ⟨1 + lineEnds before, 1 + ahead.length⟩ := by
  obtain ⟨passed, hsource, hoffset, hposition, hcut⟩ := h
  obtain ⟨before, hpassed, hahead, hbefore⟩ := exists_before_lastLine passed
  obtain ⟨behind, after, hrest, hbehind, hafter⟩ : ∃ behind after, s.rest = behind ++ after ∧
      Unbroken behind ∧ Stops (!endsLine ·) after := by
    refine ⟨_, _, List.takeWhile_append_dropWhile.symm, ?_, stops_dropWhile _ _⟩
    exact fun c hc => by simpa using List.mem_takeWhile_imp hc
  rw [Position.advance_start, Position.past] at hposition
  generalize lastLine passed = ahead at hpassed hahead hposition
  rw [hpassed] at hcut
  subst hpassed
  have hline : Unbroken (ahead ++ behind) := List.forall_mem_append.mpr ⟨hahead, hbehind⟩
  have hcut' : before.getLast? = some '\r' → (ahead ++ behind ++ after).head? ≠ some '\n' := by
    intro hreturn hfeed
    cases ahead with
    | nil => exact hcut (by simpa using hreturn) (by simpa [hrest] using hfeed)
    | cons c ahead =>
        obtain rfl : c = '\n' := by simpa using hfeed
        cases hahead '\n' List.mem_cons_self
  refine ⟨before, ahead, behind, after, ?_, ⟨hline, hbefore, ?_, hcut'⟩, hoffset, ?_⟩
  · rw [hsource, hrest, List.append_assoc, List.append_assoc]
  · exact fun c hc => by simpa using hafter c hc
  · have hcount : lineEnds (before ++ ahead) = lineEnds before := by
      rw [lineEnds_append, lineEnds_eq_zero hahead, Nat.add_zero]
      intro _ hfeed
      cases hahead '\n' (List.mem_of_head? hfeed)
    rw [hposition, hcount]

end TildeLang
