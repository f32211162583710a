import Mathlib.Data.List.TakeWhile
import TildeLang.Token.Stream

/-!
# The vocabulary, read off the table

What a row takes begins with a character of the row, so only a few rows of the
table matter at any place of a source; and the row that decides comes before
every other row that could.  From these two facts it follows what the text of
a token looks like, and what can stand right after it.

* `firstMatch?_filter` — rows that cannot begin with the next character do not
  matter;
* `split_eq_none_of_firstMatch?` — a row that stands before the deciding one
  takes nothing;
* `Alphabet.isWord_of_holds` — digits and the characters of names are parts of
  words;
* `firstMatch?_of_isWord` — a character that is neither a digit nor part of a
  name, but part of a word, begins no token;
* `Stops.splitRun` — a run is taken up to where the text stops to accept.
-/

namespace TildeLang

/-- Whether a text of a shape can begin with a character. -/
def Shape.begins : Shape → Char → Bool
  | fixed text, c => text.head? == some c
  | word text, c => text.head? == some c
  | lineEnd, c => Text.endsLine c
  | run _ alphabet, c => alphabet.holds c
  | enclosed mark, c => c == mark
  | restOfLine mark, c => c == mark

theorem Row.begins_of_split {row : Row} {c : Char} {more taken rest : List Char}
    (h : row.split (c :: more) = some (taken, rest)) : row.shape.begins c = true := by
  obtain ⟨hsplit, hne⟩ := Row.split_eq_some_iff.mp h
  cases hshape : row.shape with
  | fixed text =>
      rw [hshape] at hsplit
      obtain ⟨rfl, hwhole⟩ := Shape.splitFixed_eq_some_iff.mp hsplit
      cases taken with
      | nil => exact absurd rfl hne
      | cons d text => simp [Shape.begins, (List.cons.inj hwhole).1]
  | word text =>
      rw [hshape] at hsplit
      obtain ⟨rfl, hwhole, _⟩ := Shape.splitWord_eq_some_iff.mp hsplit
      cases taken with
      | nil => exact absurd rfl hne
      | cons d text => simp [Shape.begins, (List.cons.inj hwhole).1]
  | lineEnd =>
      rw [hshape] at hsplit
      simp only [Shape.split] at hsplit
      unfold Shape.splitLineEnd at hsplit
      split at hsplit
      · cases ‹c :: more = []›
      · obtain ⟨rfl, _⟩ := List.cons.inj ‹c :: more = _›
        rfl
      · obtain ⟨rfl, _⟩ := List.cons.inj ‹c :: more = _›
        split at hsplit
        · assumption
        · cases hsplit
  | run least alphabet =>
      rw [hshape] at hsplit
      simp only [Shape.split, Shape.splitRun] at hsplit
      cases hholds : alphabet.holds c with
      | true => exact hholds
      | false =>
          have hnone : (c :: more).takeWhile alphabet.holds = [] :=
            List.takeWhile_cons_of_neg (by simp [hholds])
          simp only [hnone] at hsplit
          split at hsplit
          · exact absurd (Prod.mk.inj (Option.some.inj hsplit)).1.symm hne
          · cases hsplit
  | enclosed mark =>
      rw [hshape] at hsplit
      simp only [Shape.split, Shape.splitEnclosed] at hsplit
      split at hsplit
      · simpa [Shape.begins]
      · cases hsplit
  | restOfLine mark =>
      rw [hshape] at hsplit
      simp only [Shape.split, Shape.splitRestOfLine] at hsplit
      split at hsplit
      · simpa [Shape.begins]
      · cases hsplit

theorem Row.split_eq_none {row : Row} {c : Char} (h : row.shape.begins c = false)
    (more : List Char) : row.split (c :: more) = none := by
  cases hsplit : row.split (c :: more) with
  | none => rfl
  | some found =>
      obtain ⟨taken, rest⟩ := found
      simp [Row.begins_of_split hsplit] at h

/-- **Only a few rows matter.**  Rows that cannot begin with the next character
take nothing. -/
theorem firstMatch?_filter (table : List Row) (c : Char) (more : List Char) :
    firstMatch? table (c :: more)
      = firstMatch? (table.filter fun row => row.shape.begins c) (c :: more) := by
  induction table with
  | nil => rfl
  | cons row table ih =>
      unfold firstMatch? at ih ⊢
      cases hbegins : row.shape.begins c with
      | true =>
          rw [List.filter_cons, if_pos hbegins, List.findSome?_cons, List.findSome?_cons, ih]
      | false => simp [hbegins, ih, Row.split_eq_none hbegins more]

theorem firstMatch?_cons_of_split {table : List Row} {whole taken rest : List Char} {row : Row}
    (h : row.split whole = some (taken, rest)) :
    firstMatch? (row :: table) whole = some (row, taken, rest) := by
  simp [firstMatch?, h]

/-- The first row that can begin with the next character decides, if it takes
something. -/
theorem firstMatch?_of_filter {table others : List Row} {c : Char} {more taken rest : List Char}
    {row : Row} (hrows : table.filter (fun row => row.shape.begins c) = row :: others)
    (hsplit : row.split (c :: more) = some (taken, rest)) :
    firstMatch? table (c :: more) = some (row, taken, rest) := by
  rw [firstMatch?_filter, hrows]
  exact firstMatch?_cons_of_split hsplit

theorem firstMatch?_eq_none_iff {table : List Row} {whole : List Char} :
    firstMatch? table whole = none ↔ ∀ row ∈ table, row.split whole = none := by
  simp [firstMatch?]

theorem firstMatch?_append (table later : List Row) (whole : List Char) :
    firstMatch? (table ++ later) whole
      = (firstMatch? table whole).or (firstMatch? later whole) :=
  List.findSome?_append

/-- **The order of the rows.**  The rows before the one that decides take
nothing. -/
theorem split_eq_none_of_firstMatch? {table : List Row} {whole taken rest : List Char}
    {row : Row} (h : firstMatch? table whole = some (row, taken, rest)) {n : Nat}
    (hrow : row ∉ table.take n) {other : Row} (hother : other ∈ table.take n) :
    other.split whole = none := by
  rw [← List.take_append_drop n table, firstMatch?_append] at h
  cases hfirst : firstMatch? (table.take n) whole with
  | none => exact firstMatch?_eq_none_iff.mp hfirst other hother
  | some found =>
      rw [hfirst, Option.some_or] at h
      obtain rfl := Option.some.inj h
      exact absurd (firstMatch?_mem hfirst).1 hrow

/-! ### Characters -/

namespace Text

/-- A property of the characters below code point 128 can be tried out. -/
theorem of_ascii (property : Char → Prop) (h : ∀ n < 128, property (Char.ofNat n)) {c : Char}
    (hc : c.toNat < 128) : property c := by
  simpa using h c.toNat hc

theorem Ranges.holds_eq_false {ranges others : Ranges} {c : Char}
    (hapart : ∀ a ∈ ranges, ∀ b ∈ others, a.2 < b.1 ∨ b.2 < a.1)
    (h : ranges.holds c = true) : others.holds c = false := by
  simp only [Ranges.holds, List.any_eq_true, List.any_eq_false, Bool.and_eq_true,
    decide_eq_true_eq] at h ⊢
  obtain ⟨a, ha, hlow, hhigh⟩ := h
  intro b hb hwithin
  obtain ⟨hlow', hhigh'⟩ := hwithin
  have := hapart a ha b hb
  omega

/-- Blanks are no word characters. -/
theorem isWord_eq_false_of_isBlank {c : Char} (h : isBlank c = true) : isWord c = false := by
  by_cases hc : c.toNat < 128
  · exact of_ascii (fun c => isBlank c = true → isWord c = false) (by decide) hc h
  · have hapart : ∀ a ∈ blankRanges, ∀ b ∈ wordRanges, a.2 < b.1 ∨ b.2 < a.1 := by
      decide +kernel
    rw [isWord, if_neg hc]
    exact Ranges.holds_eq_false hapart h

end Text

namespace Alphabet

theorem toNat_lt_of_digit {c : Char} (h : digit.holds c = true) : c.toNat < 128 :=
  Nat.lt_of_le_of_lt (Char.isDigit_iff_toNat.mp h).2 (by decide)

theorem toNat_lt_of_name {c : Char} (h : name.holds c = true) : c.toNat < 128 := by
  simp only [holds, Bool.or_eq_true, beq_iff_eq] at h
  rcases h with hlower | rfl
  · have hle : c.val ≤ 'z'.val := of_decide_eq_true ((Bool.and_eq_true _ _).mp hlower).2
    exact Nat.lt_of_le_of_lt (UInt32.le_iff_toNat_le.mp hle) (by decide)
  · decide

/-- Digits and the characters of names are parts of words. -/
theorem isWord_of_holds {alphabet : Alphabet} {c : Char} (h : alphabet.holds c = true)
    (hblank : alphabet ≠ blank) : Text.isWord c = true := by
  cases alphabet with
  | blank => exact absurd rfl hblank
  | digit =>
      exact Text.of_ascii (fun c => digit.holds c = true → Text.isWord c = true) (by decide)
        (toNat_lt_of_digit h) h
  | name =>
      exact Text.of_ascii (fun c => name.holds c = true → Text.isWord c = true) (by decide)
        (toNat_lt_of_name h) h

end Alphabet

/-! ### Which rows can begin with a character -/

/-- The first characters of the texts of a shape that is no run. -/
def Shape.marks : Shape → List Char
  | fixed text => text.take 1
  | word text => text.take 1
  | lineEnd => ['\r', '\n']
  | run _ _ => []
  | enclosed mark => [mark]
  | restOfLine mark => [mark]

theorem Shape.begins_eq_true {shape : Shape} {c : Char} (h : shape.begins c = true) :
    c ∈ shape.marks ∨ ∃ least alphabet, shape = run least alphabet ∧ alphabet.holds c = true := by
  cases shape with
  | fixed text =>
      cases text <;> simp_all [begins, marks]
  | word text =>
      cases text <;> simp_all [begins, marks]
  | lineEnd => exact Or.inl (by simpa [begins, marks, Text.endsLine] using h)
  | run least alphabet => exact Or.inr ⟨least, alphabet, rfl, h⟩
  | enclosed mark => exact Or.inl (by simpa [begins, marks] using h)
  | restOfLine mark => exact Or.inl (by simpa [begins, marks] using h)

/-- **Foreign word characters.**  No token begins with a character that is part
of a word, but neither a digit nor part of a name. -/
theorem firstMatch?_of_isWord {c : Char} (hword : Text.isWord c = true)
    (hdigit : Alphabet.digit.holds c = false) (hname : Alphabet.name.holds c = false)
    (more : List Char) : firstMatch? tokenTable (c :: more) = none := by
  have hmarks : ∀ row ∈ tokenTable, row.shape.marks.all
      (fun x => !Text.isWord x || Alphabet.name.holds x) = true := by decide
  have hnone : tokenTable.filter (fun row => row.shape.begins c) = [] := by
    refine List.filter_eq_nil_iff.mpr ?_
    intro row hrow hbegins
    rcases Shape.begins_eq_true hbegins with hmark | ⟨least, alphabet, _, hholds⟩
    · have hheld := List.all_eq_true.mp (hmarks row hrow) c hmark
      simp [hword, hname] at hheld
    · cases alphabet with
      | blank => simp [Text.isWord_eq_false_of_isBlank hholds] at hword
      | digit => simp [hholds] at hdigit
      | name => simp [hholds] at hname
  rw [firstMatch?_filter, hnone]
  rfl

/-- Only the row of numbers can begin with a digit. -/
theorem filter_begins_of_digit {c : Char} (h : Alphabet.digit.holds c = true) :
    tokenTable.filter (fun row => row.shape.begins c)
      = [⟨.literal, .number, .run 1 .digit, .number⟩] :=
  Text.of_ascii (fun c => Alphabet.digit.holds c = true →
    tokenTable.filter (fun row => row.shape.begins c)
      = [⟨.literal, .number, .run 1 .digit, .number⟩]) (by decide +kernel)
    (Alphabet.toNat_lt_of_digit h) h

/-! ### What the shapes take -/

theorem Row.split_fixed {row : Row} {text : List Char} (hshape : row.shape = .fixed text)
    (hne : text ≠ []) (rest : List Char) : row.split (text ++ rest) = some (text, rest) :=
  Row.split_eq_some_iff.mpr
    ⟨by rw [hshape]; exact Shape.splitFixed_eq_some_iff.mpr ⟨rfl, rfl⟩, hne⟩

theorem Row.split_word {row : Row} {text rest : List Char} (hshape : row.shape = .word text)
    (hne : text ≠ []) (hrest : Shape.startsWord rest = false) :
    row.split (text ++ rest) = some (text, rest) :=
  Row.split_eq_some_iff.mpr
    ⟨by rw [hshape]; exact Shape.splitWord_eq_some_iff.mpr ⟨rfl, rfl, hrest⟩, hne⟩

/-- The text is empty or begins with a character that is not accepted. -/
def Stops (accepts : Char → Bool) (text : List Char) : Prop :=
  ∀ c, text.head? = some c → accepts c = false

theorem startsWord_eq_false_iff {text : List Char} :
    Shape.startsWord text = false ↔ Stops Text.isWord text := by
  cases text with
  | nil => simp [Stops, Shape.startsWord]
  | cons c more => simp [Stops, Shape.startsWord]

theorem stops_dropWhile (accepts : Char → Bool) (text : List Char) :
    Stops accepts (text.dropWhile accepts) := by
  intro c hc
  have := List.head?_dropWhile_not accepts text
  simpa [hc] using this

theorem Stops.dropWhile {accepts : Char → Bool} {text : List Char} (h : Stops accepts text) :
    text.dropWhile accepts = text := by
  cases text with
  | nil => rfl
  | cons c more => exact List.dropWhile_cons_of_neg (by simp [h c rfl])

/-- What begins a text and is made of accepted characters ends where the text
stops to accept. -/
theorem Stops.begins_within {accepts : Char → Bool} {text word rest : List Char}
    (h : Stops accepts rest) (hword : ∀ c ∈ word, accepts c = true)
    (hbegins : word <+: text ++ rest) : word <+: text := by
  rcases List.prefix_or_prefix_of_prefix hbegins (List.prefix_append text rest) with hle | hle
  · exact hle
  · obtain ⟨extra, rfl⟩ := hle
    rw [List.prefix_append_right_inj] at hbegins
    cases extra with
    | nil => simp
    | cons c extra =>
        obtain ⟨more, rfl⟩ := hbegins
        have haccepts := hword c (by simp)
        have hrefuses := h c rfl
        simp [haccepts] at hrefuses

/-- A run of accepted characters is taken as far as it goes. -/
theorem Stops.splitRun {accepts : Char → Bool} {text rest : List Char} (h : Stops accepts rest)
    (htext : ∀ c ∈ text, accepts c = true) {least : Nat} (hleast : least ≤ text.length) :
    Shape.splitRun least accepts (text ++ rest) = some (text, rest) := by
  have htake : rest.takeWhile accepts = [] := by
    cases rest with
    | nil => rfl
    | cons c more => exact List.takeWhile_cons_of_neg (by simp [h c rfl])
  simp [Shape.splitRun, List.takeWhile_append_of_pos htext, List.dropWhile_append_of_pos htext,
    htake, h.dropWhile, hleast]

theorem Shape.splitRun_eq_some {least : Nat} {accepts : Char → Bool}
    {whole taken rest : List Char} (h : splitRun least accepts whole = some (taken, rest)) :
    least ≤ taken.length ∧ (∀ c ∈ taken, accepts c = true) ∧ Stops accepts rest := by
  simp only [splitRun] at h
  split at h
  · rename_i hleast
    obtain ⟨rfl, rfl⟩ := Prod.mk.inj (Option.some.inj h)
    exact ⟨hleast, fun c hc => List.mem_takeWhile_imp hc, stops_dropWhile accepts whole⟩
  · cases h

/-- What stands between two marks holds none. -/
theorem Shape.splitEnclosed_eq_some {mark : Char} {whole taken rest : List Char}
    (h : splitEnclosed mark whole = some (taken, rest)) :
    ∃ inner, taken = mark :: (inner ++ [mark]) ∧ mark ∉ inner := by
  cases whole with
  | nil => cases h
  | cons c more =>
      simp only [splitEnclosed] at h
      split at h
      · rename_i hmark
        subst hmark
        cases hd : more.dropWhile (· != c) with
        | nil => simp [hd] at h
        | cons close tail =>
            simp only [hd, Option.some.injEq, Prod.mk.injEq] at h
            obtain ⟨rfl, rfl⟩ := h
            have hclose : close = c := by
              have := List.head?_dropWhile_not (· != c) more
              simpa [hd] using this
            refine ⟨more.takeWhile (· != c), by rw [hclose], ?_⟩
            intro hmem
            have := List.mem_takeWhile_imp hmem
            simp at this
      · cases h

theorem Shape.splitEnclosed_of_not_mem {mark : Char} {inner : List Char} (h : mark ∉ inner)
    (rest : List Char) :
    splitEnclosed mark (mark :: (inner ++ mark :: rest))
      = some (mark :: (inner ++ [mark]), rest) := by
  have hinner : ∀ c ∈ inner, (c != mark) = true := by
    intro c hc
    have hne : c ≠ mark := fun heq => h (heq ▸ hc)
    simpa using hne
  simp [splitEnclosed, List.takeWhile_append_of_pos hinner,
    List.dropWhile_append_of_pos hinner]

/-- A mark that does not come again encloses nothing. -/
theorem Shape.not_mem_of_splitEnclosed {mark : Char} {more : List Char}
    (h : splitEnclosed mark (mark :: more) = none) : mark ∉ more := by
  simp only [splitEnclosed, ite_true] at h
  split at h
  · rename_i hd
    intro hmem
    have := List.dropWhile_eq_nil_iff.mp hd mark hmem
    simp at this
  · cases h

end TildeLang
