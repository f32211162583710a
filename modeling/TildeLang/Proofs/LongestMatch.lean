import TildeLang.Proofs.Calls
import TildeLang.Proofs.Neighbours
import TildeLang.Proofs.RowOrder

/-!
# The first row and the longest piece

At any place of a source the first row of the table that takes something decides.
Another rule would be to let the row decide that takes most, and the first of these
rows if there are several.  The two rules nearly always agree: where two rows
**overlap**, the one that is tried first takes at least as much.  They disagree
where a tab is followed by a blank, since tabs are taken one by one, and where
`true`, `false` or `else` goes on as a name, since these three words do not ask
where they end.

* `overlaps_of_firstMatch?` — any other row that takes something overlaps the one
  that decides;
* `Row.split_run_of_all` — how much a run takes of a text whose first part belongs
  to it;
* `outrun_of_longer` — another row takes more only from the texts named above;
* `longer_of_outrun` — and from these it does;
* `first_match_longest` — the first row and the longest piece.
-/

namespace TildeLang

/-- Of the rows of a table, this one takes the most bytes from a text, and it comes
before all other rows that take as many. -/
structure EarliestLongest (table : List Row) (text : List Char) (row : Row) (bytes : Nat) :
    Prop where
  mem : row ∈ table
  takes : row.matchLength? text = some bytes
  longest : ∀ other ∈ table, ∀ n, other.matchLength? text = some n → n ≤ bytes
  earliest : ∀ other ∈ table, other.matchLength? text = some bytes → other ≠ row →
    Ordered table row.kind other.kind

/-- The text begins with a tab and another blank, or with a word that goes on as a
name although no name can begin with it. -/
def Outrun (text : List Char) : Prop :=
  (∃ c more, text = '\t' :: c :: more ∧ Text.isBlank c = true) ∨
  ∃ word ∈ leadingWords, ∃ c more, text = word ++ c :: more ∧ Alphabet.name.holds c = true

section Rows

variable {text taken rest taken' rest' : List Char} {first other : Row}

theorem Row.matchLength?_of_split {row : Row} (h : row.split text = some (taken, rest)) :
    row.matchLength? text = some (Text.byteLength taken) := by
  rw [matchLength?, h]
  rfl

theorem Row.exists_split_of_matchLength? {row : Row} {n : Nat}
    (h : row.matchLength? text = some n) :
    ∃ taken rest, row.split text = some (taken, rest) ∧ n = Text.byteLength taken := by
  obtain ⟨⟨taken, rest⟩, hsplit, hn⟩ := Option.map_eq_some_iff.mp h
  exact ⟨taken, rest, hsplit, hn.symm⟩

/-- **Rivals.**  Any other row that takes something overlaps the one that
decides. -/
theorem overlaps_of_firstMatch? (h : firstMatch? tokenTable text = some (first, taken, rest))
    (hother : other ∈ tokenTable) (hsplit : other.split text = some (taken', rest'))
    (hne : other ≠ first) : (first.kind, other.kind) ∈ overlaps := by
  have hmatching : other ∈ matchingRows tokenTable text :=
    List.mem_filter.mpr ⟨hother, by simp [isSome_matchLength?, hsplit]⟩
  have hrivals := (rivals_matchingRows text).overlap
  rw [firstMatch?_matchingRows] at h
  cases hrows : matchingRows tokenTable text with
  | nil => simp [hrows] at hmatching
  | cons row later =>
      rw [hrows] at h hmatching hrivals
      have hrow : row ∈ matchingRows tokenTable text := by simp [hrows]
      have htakes : (row.split text).isSome = true := by
        simpa [isSome_matchLength?] using (List.mem_filter.mp hrow).2
      obtain ⟨⟨piece, left⟩, hpiece⟩ := Option.isSome_iff_exists.mp htakes
      rw [firstMatch?_cons_of_split hpiece] at h
      cases h
      exact List.rel_of_pairwise_cons hrivals ((List.mem_cons.mp hmatching).resolve_left hne)

/-- A run takes the first part of a text, if it belongs to the run, and goes on
for as long as it can. -/
theorem Row.split_run_of_all {row : Row} {least : Nat} {alphabet : Alphabet}
    (hshape : row.shape = .run least alphabet) (htaken : ∀ c ∈ taken, alphabet.holds c = true)
    (hsplit : row.split (taken ++ rest) = some (taken', rest')) :
    taken' = taken ++ rest.takeWhile alphabet.holds := by
  have hrun := (Row.split_eq_some_iff.mp hsplit).1
  rw [hshape, Shape.split, Shape.splitRun, List.takeWhile_append_of_pos htaken] at hrun
  split at hrun
  · exact (Prod.mk.inj (Option.some.inj hrun)).1.symm
  · cases hrun

/-- How two rows that overlap are laid out. -/
theorem overlap_layout : ∀ first ∈ tokenTable, ∀ other ∈ tokenTable,
    (first.kind, other.kind) ∈ overlaps →
      (other.shape = .fixed ['/'] ∨ other.shape = .fixed ['=']) ∨
      first.shape = .fixed ['\t'] ∧ other.shape = .run 1 .blank ∨
      (∃ word ∈ leadingWords, first.shape = .fixed word ∧ other.shape = .run 2 .name) ∨
      (∃ word ∈ reservedWords, first.shape = .word word ∧ other.shape = .run 2 .name) := by
  decide +kernel

/-- Where a run takes more than a first part that belongs to it, the rest begins
with a character that does. -/
theorem Row.exists_holds_of_longer {row : Row} {least : Nat} {alphabet : Alphabet}
    (hshape : row.shape = .run least alphabet) (htaken : ∀ c ∈ taken, alphabet.holds c = true)
    (hsplit : row.split (taken ++ rest) = some (taken', rest'))
    (hlonger : Text.byteLength taken < Text.byteLength taken') :
    ∃ c more, rest = c :: more ∧ alphabet.holds c = true := by
  rw [Row.split_run_of_all hshape htaken hsplit, Text.byteLength_append] at hlonger
  cases rest with
  | nil => simp at hlonger
  | cons c more =>
      refine ⟨c, more, rfl, ?_⟩
      by_contra hc
      simp [hc] at hlonger

/-- **Where another row takes more.**  A row other than the one that decides takes
more only where a tab comes before a blank, or a word goes on as a name. -/
theorem outrun_of_longer (h : firstMatch? tokenTable text = some (first, taken, rest))
    (hother : other ∈ tokenTable) (hsplit : other.split text = some (taken', rest'))
    (hlonger : Text.byteLength taken < Text.byteLength taken') : Outrun text := by
  obtain ⟨hfirst, htakes⟩ := firstMatch?_mem h
  have hne : other ≠ first := by
    rintro rfl
    cases htakes.symm.trans hsplit
    exact Nat.lt_irrefl _ hlonger
  have hlayout :=
    overlap_layout first hfirst other hother (overlaps_of_firstMatch? h hother hsplit hne)
  have hpos := Text.byteLength_pos (Row.split_ne_nil htakes)
  have hpiece := (Row.split_eq_some_iff.mp htakes).1
  have hpiece' := (Row.split_eq_some_iff.mp hsplit).1
  have hletters : ∀ word ∈ leadingWords ++ reservedWords,
      word.all Alphabet.name.holds = true := by decide
  rw [Row.split_append htakes] at hsplit
  rcases hlayout with hsign | ⟨hfixed, hrun⟩ | ⟨word, hword, hfixed, hrun⟩ |
    ⟨word, hword, hends, hrun⟩
  · -- A sign of one byte is never more than what the other row takes.
    have hone : Text.byteLength taken' = 1 := by
      rcases hsign with hfixed | hfixed <;> rw [hfixed] at hpiece' <;>
        rw [(Shape.splitFixed_eq_some_iff.mp hpiece').1] <;> rfl
    omega
  · rw [hfixed] at hpiece
    obtain ⟨rfl, htext⟩ := Shape.splitFixed_eq_some_iff.mp hpiece
    obtain ⟨c, more, rfl, hc⟩ :=
      Row.exists_holds_of_longer hrun (List.all_eq_true.mp (by decide)) hsplit hlonger
    exact .inl ⟨c, more, htext, hc⟩
  · rw [hfixed] at hpiece
    obtain ⟨rfl, htext⟩ := Shape.splitFixed_eq_some_iff.mp hpiece
    have hall := List.all_eq_true.mp (hletters _ (List.mem_append_left _ hword))
    obtain ⟨c, more, rfl, hc⟩ := Row.exists_holds_of_longer hrun hall hsplit hlonger
    exact .inr ⟨taken, hword, c, more, htext, hc⟩
  · -- A reserved word that goes on as a name does not end there.
    rw [hends] at hpiece
    obtain ⟨rfl, _, hboundary⟩ := Shape.splitWord_eq_some_iff.mp hpiece
    have hall := List.all_eq_true.mp (hletters _ (List.mem_append_right _ hword))
    obtain ⟨c, more, rfl, hc⟩ := Row.exists_holds_of_longer hrun hall hsplit hlonger
    have hpart := Alphabet.isWord_of_holds hc (by decide)
    exact absurd hpart (Bool.eq_false_iff.mp hboundary)

/-- A row for a fixed text decides, but a run to which that text belongs takes more
where it goes on. -/
theorem exists_longer_of_run {word : List Char} (hfirst : first ∈ tokenTable)
    (hforemost : first.isForemost = true) (hfixed : first.shape = .fixed word) (hne : word ≠ [])
    {least : Nat} {alphabet : Alphabet} (hrun : other.shape = .run least alphabet)
    (hleast : least ≤ word.length) (hword : ∀ c ∈ word, alphabet.holds c = true)
    {c : Char} (hc : alphabet.holds c = true) (more : List Char) :
    firstMatch? tokenTable (word ++ c :: more) = some (first, word, c :: more) ∧
      ∃ n, other.matchLength? (word ++ c :: more) = some n ∧ Text.byteLength word < n := by
  refine ⟨firstMatch?_of_isForemost hfirst hforemost (Row.split_fixed hfixed hne _), ?_⟩
  have htake : (word ++ c :: more).takeWhile alphabet.holds
      = word ++ c :: more.takeWhile alphabet.holds := by
    rw [List.takeWhile_append_of_pos hword, List.takeWhile_cons_of_pos hc]
  have hlength : least ≤ (word ++ c :: more.takeWhile alphabet.holds).length := by
    rw [List.length_append]
    omega
  have hsplit : other.split (word ++ c :: more)
      = some (word ++ c :: more.takeWhile alphabet.holds,
          (word ++ c :: more).dropWhile alphabet.holds) := by
    refine Row.split_eq_some_iff.mpr ⟨?_, by simp⟩
    rw [hrun, Shape.split, Shape.splitRun, htake, if_pos hlength]
  refine ⟨_, Row.matchLength?_of_split hsplit, ?_⟩
  have hpos := c.utf8Size_pos
  rw [Text.byteLength_append, Text.byteLength_cons]
  omega

/-- **Where the first row is outrun.**  From such a text another row takes more than
the one that decides. -/
theorem longer_of_outrun (h : firstMatch? tokenTable text = some (first, taken, rest))
    (houtrun : Outrun text) : ∃ other ∈ tokenTable, ∃ n,
      other.matchLength? text = some n ∧ Text.byteLength taken < n := by
  have hwords : ∀ word ∈ leadingWords,
      (∃ row ∈ tokenTable, row.isForemost = true ∧ row.shape = .fixed word) ∧
        2 ≤ word.length ∧ word.all Alphabet.name.holds = true := by decide
  rcases houtrun with ⟨c, more, rfl, hc⟩ | ⟨word, hword, c, more, rfl, hc⟩
  · obtain ⟨other, hother, hrun⟩ : ∃ row ∈ tokenTable, row.shape = .run 1 .blank := by decide
    obtain ⟨tab, htab, hforemost, hfixed⟩ : ∃ row ∈ tokenTable,
        row.isForemost = true ∧ row.shape = .fixed ['\t'] := by decide
    obtain ⟨hdecides, hlonger⟩ := exists_longer_of_run htab hforemost hfixed
      (List.cons_ne_nil _ _) hrun (by decide) (List.all_eq_true.mp (by decide)) hc more
    cases h.symm.trans hdecides
    exact ⟨other, hother, hlonger⟩
  · obtain ⟨other, hother, hrun⟩ : ∃ row ∈ tokenTable, row.shape = .run 2 .name := by decide
    obtain ⟨⟨row, hrow, hforemost, hfixed⟩, hlength, hletters⟩ := hwords word hword
    have hne : word ≠ [] := fun hnil => absurd hlength (by simp [hnil])
    obtain ⟨hdecides, hlonger⟩ := exists_longer_of_run hrow hforemost hfixed hne hrun hlength
      (List.all_eq_true.mp hletters) hc more
    cases h.symm.trans hdecides
    exact ⟨other, hother, hlonger⟩

end Rows

/-- **The first row and the longest piece.**  From every text from which some row
takes something, the row that decides takes at least as many bytes as any other,
and comes before all that take as many, unless the text begins with a tab and
another blank, or with `true`, `false` or `else` and a character of names.  From
these texts another row takes more. -/
theorem first_match_longest (text : List Char)
    (h : ∃ row ∈ tokenTable, (row.matchLength? text).isSome = true) :
    ∃ first taken rest, firstMatch? tokenTable text = some (first, taken, rest) ∧
      (∀ (s next : TokenStream) t, s.rest = text → s.scan tokenTable = .ok (some (t, next)) →
        t.kind = first.kind ∧ t.raw.toList = taken) ∧
      (¬Outrun text → EarliestLongest tokenTable text first (Text.byteLength taken)) ∧
      (Outrun text → ∃ other ∈ tokenTable, ∃ n,
        other.matchLength? text = some n ∧ first.matchLength? text = some (Text.byteLength taken) ∧
          Text.byteLength taken < n) := by
  obtain ⟨row, hrow, hmatches⟩ := h
  rw [isSome_matchLength?] at hmatches
  cases hfirst : firstMatch? tokenTable text with
  | none => simp [firstMatch?_eq_none_iff.mp hfirst row hrow] at hmatches
  | some found =>
      obtain ⟨first, taken, rest⟩ := found
      obtain ⟨hmem, hsplit⟩ := firstMatch?_mem hfirst
      have htakes := Row.matchLength?_of_split hsplit
      refine ⟨first, taken, rest, rfl, ?_, ?_, ?_⟩
      · rintro s next t rfl hscan
        obtain ⟨row', taken', rest', value, hmatch, _, rfl, _⟩ :=
          TokenStream.scan_eq_some_iff.mp hscan
        cases hfirst.symm.trans hmatch
        exact ⟨rfl, String.toList_ofList⟩
      · intro hnot
        refine ⟨hmem, htakes, ?_, ?_⟩
        · intro other hother n hn
          obtain ⟨taken', rest', hsplit', rfl⟩ := Row.exists_split_of_matchLength? hn
          exact Nat.le_of_not_lt fun hlonger =>
            hnot (outrun_of_longer hfirst hother hsplit' hlonger)
        · intro other hother hn hne
          exact ordered_of_firstMatch? hfirst hother (by simp [hn]) hne
      · intro houtrun
        obtain ⟨other, hother, n, hn, hlonger⟩ := longer_of_outrun hfirst houtrun
        exact ⟨other, hother, n, hn, htakes, hlonger⟩

/-- Three signs `=`, of which the first two are one token, and a word that goes on as
a name. -/
theorem first_match_longest_signs :
    EarliestLongest tokenTable ['=', '=', '='] (.symbol .operator .equal ['=', '=']) 2 ∧
    (∃ first taken rest, firstMatch? tokenTable "elsewhere".toList = some (first, taken, rest) ∧
      first.kind = .elseWord ∧ taken = "else".toList ∧
      ∃ other ∈ tokenTable, ∃ n, other.matchLength? "elsewhere".toList = some n ∧ 4 < n) := by
  constructor
  · have hwords : ∀ word ∈ leadingWords, ¬word <+: ['=', '=', '='] := by decide
    have hcalm : ¬Outrun ['=', '=', '='] := by
      rintro (⟨c, more, heq, _⟩ | ⟨word, hword, c, more, heq, _⟩)
      · cases heq
      · exact hwords word hword ⟨c :: more, heq.symm⟩
    have hdecides : firstMatch? tokenTable ['=', '=', '=']
        = some (.symbol .operator .equal ['=', '='], ['=', '='], ['=']) := by decide +kernel
    obtain ⟨first, taken, rest, hfirst, _, hlongest, _⟩ :=
      first_match_longest ['=', '=', '='] ⟨.symbol .operator .assign ['='], by decide, by decide⟩
    cases hfirst.symm.trans hdecides
    exact hlongest hcalm
  · have hdecides : firstMatch? tokenTable "elsewhere".toList
        = some (.symbol .keyword .elseWord "else".toList, "else".toList, "where".toList) := by
      decide +kernel
    obtain ⟨first, taken, rest, hfirst, _, _, hlonger⟩ := first_match_longest "elsewhere".toList
      ⟨.symbol .keyword .elseWord "else".toList, by decide, by decide⟩
    cases hfirst.symm.trans hdecides
    obtain ⟨other, hother, n, hn, _, hmore⟩ := hlonger
      (.inr ⟨"else".toList, by decide, 'w', "here".toList, rfl, by decide⟩)
    exact ⟨_, _, _, hdecides, rfl, rfl, other, hother, n, hn, hmore⟩

end TildeLang
