import Mathlib.Data.List.Basic
import Mathlib.Data.List.Pairwise
import TildeLang.Proofs.Location

/-!
# How much the order of the rows matters

The first row of the token table that takes something decides, so the order of
the rows is part of the language.  But rows are seldom rivals: what a row takes
begins with one of few characters, and no character begins the texts of more
than two rows.  Two rows that can take something from one text **overlap**, and
there are nine such pairs.  A table with the same rows in another order gives
the same tokens exactly when it keeps these nine pairs in order.

* `rivals_matchingRows` — the rows that take something from a text overlap, and
  there are two of them at most;
* `matchingRows_eq_of_ordered` — a table that keeps overlapping rows in order
  has the same rows for every text, in the same order;
* `ordered_of_lexemesBy` — a table that gives the same tokens keeps them in
  order;
* `row_order` — the order of the rows.
-/

namespace TildeLang

/-- The kinds of the rows that can take something from one text, with the row
that is tried first in front. -/
def overlaps : List (Kind × Kind) :=
  [(.tab, .whiteSpace), (.blockComment, .divide), (.equal, .assign),
   (.boolFalse, .identifier), (.boolTrue, .identifier), (.ifWord, .identifier),
   (.elseWord, .identifier), (.letWord, .identifier), (.constWord, .identifier)]

/-- The rows of a table that take something from the front of a text. -/
def matchingRows (table : List Row) (text : List Char) : List Row :=
  table.filter fun row => (row.matchLength? text).isSome

/-- The row of one kind comes before the row of another. -/
def Ordered (table : List Row) (earlier later : Kind) : Prop :=
  [earlier, later].Sublist (table.map Row.kind)

/-- Rows of which any two overlap, two of them at most. -/
structure Rivals (rows : List Row) : Prop where
  few : rows.length ≤ 2
  overlap : rows.Pairwise fun a b => (a.kind, b.kind) ∈ overlaps

instance (rows : List Row) : Decidable (Rivals rows) :=
  decidable_of_iff (rows.length ≤ 2 ∧ rows.Pairwise fun a b => (a.kind, b.kind) ∈ overlaps)
    ⟨fun h => ⟨h.1, h.2⟩, fun h => ⟨h.few, h.overlap⟩⟩

theorem Rivals.sublist {rows fewer : List Row} (h : Rivals rows) (hfewer : fewer.Sublist rows) :
    Rivals fewer :=
  ⟨hfewer.length_le.trans h.few, h.overlap.sublist hfewer⟩

/-! ### Rows that begin with one character -/

/-- Whether the texts of a shape begin with characters below code point 128. -/
def Shape.beginsAscii : Shape → Bool
  | run _ alphabet => alphabet != .blank
  | shape => shape.marks.all (·.toNat < 128)

theorem Shape.toNat_lt_of_begins {shape : Shape} (hascii : shape.beginsAscii = true) {c : Char}
    (h : shape.begins c = true) : c.toNat < 128 := by
  rcases begins_eq_true h with hmark | ⟨least, alphabet, rfl, hholds⟩
  · have hmarks : shape.marks.all (·.toNat < 128) = true := by
      cases shape with
      | run least alphabet => rfl
      | _ => exact hascii
    simpa using List.all_eq_true.mp hmarks c hmark
  · cases alphabet with
    | blank => cases hascii
    | digit => exact Alphabet.toNat_lt_of_digit hholds
    | name => exact Alphabet.toNat_lt_of_name hholds

/-- **Few rows begin alike.**  The rows that can begin with a character
overlap. -/
theorem rivals_filter_begins (c : Char) :
    Rivals (tokenTable.filter fun row => row.shape.begins c) := by
  by_cases hc : c.toNat < 128
  · exact Text.of_ascii
      (fun c => Rivals (tokenTable.filter fun row => row.shape.begins c)) (by decide +kernel) hc
  · have hascii : ∀ row ∈ tokenTable, row.kind ≠ .whiteSpace → row.shape.beginsAscii = true := by
      decide
    have hblank : Rivals (tokenTable.filter fun row => row.kind == .whiteSpace) := by decide
    have hrows : tokenTable.filter (fun row => row.shape.begins c)
        = (tokenTable.filter fun row => row.kind == .whiteSpace).filter
            fun row => row.shape.begins c := by
      rw [List.filter_filter]
      refine List.filter_congr fun row hrow => ?_
      by_cases hkind : row.kind = .whiteSpace
      · simp [hkind]
      · have hnot : row.shape.begins c = false := by
          refine Bool.eq_false_iff.mpr fun hbegins => hc ?_
          exact Shape.toNat_lt_of_begins (hascii row hrow hkind) hbegins
        simp [hnot]
    rw [hrows]
    exact hblank.sublist List.filter_sublist

/-! ### Rows that take something from one text -/

theorem isSome_matchLength? {row : Row} {text : List Char} :
    (row.matchLength? text).isSome = (row.split text).isSome := by
  simp [Row.matchLength?]

/-- The rows that take nothing do not matter. -/
theorem firstMatch?_matchingRows (table : List Row) (text : List Char) :
    firstMatch? table text = firstMatch? (matchingRows table text) text := by
  induction table with
  | nil => rfl
  | cons row table ih =>
      cases hsplit : row.split text with
      | none =>
          have hrow : matchingRows (row :: table) text = matchingRows table text := by
            simp [matchingRows, isSome_matchLength?, hsplit]
          rw [hrow, ← ih]
          simp [firstMatch?, hsplit]
      | some found =>
          have hrow : matchingRows (row :: table) text = row :: matchingRows table text := by
            simp [matchingRows, isSome_matchLength?, hsplit]
          rw [hrow, firstMatch?_cons_of_split hsplit, firstMatch?_cons_of_split hsplit]

/-- **Rows are seldom rivals.**  The rows that take something from a text
overlap. -/
theorem rivals_matchingRows (text : List Char) : Rivals (matchingRows tokenTable text) := by
  cases text with
  | nil =>
      have hnone : matchingRows tokenTable [] = [] := by decide
      rw [hnone]
      decide
  | cons c more =>
      refine (rivals_filter_begins c).sublist (List.monotone_filter_right _ ?_)
      intro row hmatches
      rw [isSome_matchLength?] at hmatches
      obtain ⟨⟨taken, rest⟩, hsplit⟩ := Option.isSome_iff_exists.mp hmatches
      exact Row.begins_of_split hsplit

/-! ### Tables that keep the order -/

theorem nodup_kinds {table : List Row} (hperm : table.Perm tokenTable) :
    (table.map Row.kind).Nodup := by
  have hnodup : (tokenTable.map Row.kind).Nodup := by decide +kernel
  exact (hperm.map Row.kind).nodup_iff.mpr hnodup

/-- In a list without duplicates, no two members come in both orders. -/
theorem not_sublist_swap {α : Type} {a b : α} {l : List α} (hnodup : l.Nodup)
    (h : [a, b].Sublist l) : ¬[b, a].Sublist l := by
  induction l with
  | nil => cases h
  | cons x l ih =>
      obtain ⟨hx, hnodup⟩ := List.nodup_cons.mp hnodup
      intro hswap
      rcases List.sublist_cons_iff.mp h with hlater | ⟨_, heq, hb⟩
      · rcases List.sublist_cons_iff.mp hswap with hswap | ⟨_, heq, _⟩
        · exact ih hnodup hlater hswap
        · cases heq
          exact hx (hlater.subset (by simp))
      · cases heq
        have hmem : b ∈ l := hb.subset (by simp)
        rcases List.sublist_cons_iff.mp hswap with hswap | ⟨_, heq, _⟩
        · exact hx (hswap.subset (by simp))
        · cases heq
          exact hx hmem

/-- **Order is enough.**  A table that keeps overlapping rows in order has the
same rows for every text, in the same order. -/
theorem matchingRows_eq_of_ordered {table : List Row} (hperm : table.Perm tokenTable)
    (h : ∀ pair ∈ overlaps, Ordered table pair.1 pair.2) (text : List Char) :
    matchingRows table text = matchingRows tokenTable text := by
  have hrivals := (rivals_matchingRows text).overlap
  have hasymm : ∀ pair ∈ overlaps, pair.swap ∉ overlaps := by decide
  -- Both lists are in order, in the sense that no row comes before one that
  -- overlaps it and is tried first.
  have hfirst : (matchingRows table text).Pairwise fun a b => (b.kind, a.kind) ∉ overlaps := by
    refine List.Pairwise.sublist List.filter_sublist ?_
    refine List.pairwise_iff_forall_sublist.mpr fun {a b} hab hoverlap => ?_
    exact not_sublist_swap (nodup_kinds hperm) (h _ hoverlap) (hab.map Row.kind)
  have hsecond : (matchingRows tokenTable text).Pairwise fun a b => (b.kind, a.kind) ∉ overlaps :=
    hrivals.imp fun hab => hasymm _ hab
  refine List.Perm.eq_of_pairwise ?_ hfirst hsecond (hperm.filter _)
  intro a b ha hb hab hba
  have hmem : a ∈ matchingRows tokenTable text := (hperm.filter _).subset ha
  have hsymm : Std.Symm fun a b : Row =>
      (a.kind, b.kind) ∈ overlaps ∨ (b.kind, a.kind) ∈ overlaps := ⟨fun _ _ => Or.symm⟩
  have hboth : (matchingRows tokenTable text).Pairwise fun a b =>
      (a.kind, b.kind) ∈ overlaps ∨ (b.kind, a.kind) ∈ overlaps := hrivals.imp Or.inl
  by_contra hne
  rcases hboth.forall hmem hb hne with hoverlap | hoverlap
  · exact hba hoverlap
  · exact hab hoverlap

namespace TokenStream

theorem scan_congr {table table' : List Row} {s : TokenStream}
    (h : firstMatch? table s.rest = firstMatch? table' s.rest) :
    s.scan table = s.scan table' := by
  unfold scan
  rw [h]

theorem lexemesBy_of_error {table : List Row} {s : TokenStream} {e : LexError}
    (h : s.scan table = .error e) : s.lexemesBy table = .error e := by
  rw [lexemesBy]
  split <;> simp_all

theorem lexemesBy_of_end {table : List Row} {s : TokenStream} (h : s.scan table = .ok none) :
    s.lexemesBy table = .ok [] := by
  rw [lexemesBy]
  split <;> simp_all

theorem lexemesBy_of_token {table : List Row} {s next : TokenStream} {t : Token}
    (h : s.scan table = .ok (some (t, next))) :
    s.lexemesBy table = (next.lexemesBy table).map (t :: ·) := by
  rw [lexemesBy]
  split <;> simp_all

/-- Tables that decide alike give the same tokens. -/
theorem lexemesBy_congr {table table' : List Row}
    (h : ∀ text, firstMatch? table text = firstMatch? table' text) (s : TokenStream) :
    s.lexemesBy table = s.lexemesBy table' := by
  fun_induction lexemesBy table s with
  | case1 s e hs => rw [lexemesBy_of_error (scan_congr (h _) ▸ hs)]
  | case2 s hs => rw [lexemesBy_of_end (scan_congr (h _) ▸ hs)]
  | case3 s t next hs ih =>
      have hs' : s.scan table' = .ok (some (t, next)) := scan_congr (h _) ▸ hs
      rw [lexemesBy_of_token hs', ih]

end TokenStream

/-! ### Tables that give the same tokens -/

namespace TokenStream

/-- A source that one row takes as a whole is one token. -/
theorem lexemesBy_single {table : List Row} {text : List Char} {row : Row} {value : Value}
    (hmatch : firstMatch? table text = some (row, text, []))
    (hvalue : row.reading.value? text = some value) :
    ∃ t, t.kind = row.kind ∧ (ofText (String.ofList text)).lexemesBy table = .ok [t] := by
  have hfront : firstMatch? table (ofText (String.ofList text)).rest = some (row, text, []) := by
    rw [ofText, String.toList_ofList]
    exact hmatch
  have hscan := scan_eq_some_iff.mpr ⟨row, text, [], value, hfront, hvalue, rfl, rfl⟩
  refine ⟨(ofText (String.ofList text)).tokenAt row text value, rfl, ?_⟩
  rw [lexemesBy_of_token hscan, lexemesBy_of_end (scan_eq_none_iff.mpr rfl)]
  rfl

/-- The first token of a stream is read by the row that decides. -/
theorem firstMatch?_of_lexemesBy {table : List Row} {s : TokenStream} {t : Token}
    {ts : List Token} (h : s.lexemesBy table = .ok (t :: ts)) :
    ∃ row taken rest, firstMatch? table s.rest = some (row, taken, rest) ∧ row.kind = t.kind := by
  cases hscan : s.scan table with
  | error e =>
      rw [lexemesBy_of_error hscan] at h
      cases h
  | ok found =>
      cases found with
      | none =>
          rw [lexemesBy_of_end hscan] at h
          cases h
      | some found =>
          obtain ⟨u, next⟩ := found
          obtain ⟨row, taken, rest, value, hmatch, _, rfl, _⟩ := scan_eq_some_iff.mp hscan
          rw [lexemesBy_of_token hscan] at h
          cases hlater : next.lexemesBy table with
          | error e => simp [hlater, Except.map] at h
          | ok us =>
              simp only [hlater, Except.map, Except.ok.injEq, List.cons.injEq] at h
              exact ⟨row, taken, rest, hmatch, h.1 ▸ rfl⟩

end TokenStream

/-- A text for which the row of a kind has a rival. -/
def contested : Kind → List Char
  | .tab => ['\t']
  | .blockComment => ['/', '/']
  | .equal => ['=', '=']
  | .boolFalse => ['f', 'a', 'l', 's', 'e']
  | .boolTrue => ['t', 'r', 'u', 'e']
  | .ifWord => ['i', 'f']
  | .elseWord => ['e', 'l', 's', 'e']
  | .letWord => ['l', 'e', 't']
  | .constWord => ['c', 'o', 'n', 's', 't']
  | _ => []

/-- Of two rows that take something, the one that decides comes first. -/
theorem ordered_of_firstMatch? {table : List Row} {text taken rest : List Char} {row later : Row}
    (h : firstMatch? table text = some (row, taken, rest)) (hlater : later ∈ table)
    (hmatches : (later.matchLength? text).isSome) (hne : later ≠ row) :
    Ordered table row.kind later.kind := by
  obtain ⟨before, row', after, rfl, hrow, hbefore⟩ := List.findSome?_eq_some_iff.mp h
  obtain rfl : row' = row := by
    simp only [Option.map_eq_some_iff, Prod.exists, Prod.mk.injEq] at hrow
    obtain ⟨_, _, _, heq, _⟩ := hrow
    exact heq
  have hafter : later ∈ after := by
    rcases List.mem_append.mp hlater with hin | hin
    · have hnone := hbefore later hin
      rw [isSome_matchLength?] at hmatches
      simp [Option.map_eq_none_iff.mp hnone] at hmatches
    · exact (List.mem_cons.mp hin).resolve_left hne
  unfold Ordered
  rw [List.map_append, List.map_cons]
  refine List.Sublist.trans ?_ (List.sublist_append_right _ _)
  exact (List.singleton_sublist.mpr (List.mem_map_of_mem hafter)).cons_cons _

/-- **Order is needed.**  A table that gives the same tokens keeps overlapping
rows in order. -/
theorem ordered_of_lexemesBy {table : List Row} (hperm : table.Perm tokenTable)
    (h : ∀ source, (TokenStream.ofText source).lexemesBy table = lexemes source)
    {pair : Kind × Kind} (hpair : pair ∈ overlaps) : Ordered table pair.1 pair.2 := by
  have hcontest : ∀ pair ∈ overlaps, ∃ row ∈ tokenTable, row.kind = pair.1 ∧
      firstMatch? tokenTable (contested pair.1) = some (row, contested pair.1, []) ∧
      (row.reading.value? (contested pair.1)).isSome ∧
      ∃ later ∈ tokenTable, later.kind = pair.2 ∧
        (later.matchLength? (contested pair.1)).isSome := by decide +kernel
  have hdistinct : ∀ pair ∈ overlaps, pair.2 ≠ pair.1 := by decide
  obtain ⟨first, _, hfirst, hmatch, hvalue, later, hlater, hkind, hmatches⟩ :=
    hcontest pair hpair
  obtain ⟨value, hvalue⟩ := Option.isSome_iff_exists.mp hvalue
  obtain ⟨t, htoken, hall⟩ := TokenStream.lexemesBy_single hmatch hvalue
  obtain ⟨row, taken, rest, hdecides, hrow⟩ :=
    TokenStream.firstMatch?_of_lexemesBy ((h _).trans hall)
  have hrow : row.kind = pair.1 := by rw [hrow, htoken, hfirst]
  rw [TokenStream.ofText, String.toList_ofList] at hdecides
  rw [← hrow, ← hkind]
  refine ordered_of_firstMatch? hdecides (hperm.mem_iff.mpr hlater) hmatches ?_
  rintro rfl
  exact hdistinct pair hpair (hkind.symm.trans hrow)

/-- **The order of the rows.**  A table with the rows of Tilde in another order
gives the same tokens of every source, or the same error, exactly when it keeps
each of nine rows before another one.  From any text two rows take something at
most, and only rows of such a pair. -/
theorem row_order :
    (∀ table : List Row, table.Perm tokenTable →
      ((∀ source, (TokenStream.ofText source).lexemesBy table = lexemes source) ↔
        ∀ pair ∈ overlaps, Ordered table pair.1 pair.2)) ∧
    ∀ text, (matchingRows tokenTable text).length ≤ 2 ∧
      ∀ a b, matchingRows tokenTable text = [a, b] → (a.kind, b.kind) ∈ overlaps := by
  refine ⟨fun table hperm => ⟨fun h _ => ordered_of_lexemesBy hperm h, ?_⟩, ?_⟩
  · intro hordered source
    refine TokenStream.lexemesBy_congr (fun text => ?_) _
    rw [firstMatch?_matchingRows, matchingRows_eq_of_ordered hperm hordered,
      ← firstMatch?_matchingRows]
  · intro text
    obtain ⟨hfew, hoverlap⟩ := rivals_matchingRows text
    refine ⟨hfew, fun a b hrows => ?_⟩
    rw [hrows] at hoverlap
    exact List.rel_of_pairwise_cons hoverlap (by simp)

/-- White space and line ends may be tried last of all, but not all rows from
the last to the first. -/
theorem row_order_reverse :
    (∀ source, (TokenStream.ofText source).lexemesBy (tokenTable.drop 3 ++ tokenTable.take 3)
      = lexemes source) ∧
    ¬∀ source, (TokenStream.ofText source).lexemesBy tokenTable.reverse = lexemes source := by
  have hlast : (tokenTable.drop 3 ++ tokenTable.take 3).Perm tokenTable :=
    List.perm_append_comm.trans (List.Perm.of_eq (List.take_append_drop 3 tokenTable))
  constructor
  · refine (row_order.1 _ hlast).mpr ?_
    unfold Ordered
    decide +kernel
  · rw [row_order.1 _ (List.reverse_perm tokenTable)]
    unfold Ordered
    decide +kernel

end TildeLang
