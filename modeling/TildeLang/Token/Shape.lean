import TildeLang.Text.Position
import TildeLang.Text.Blank
import TildeLang.Text.Word

/-!
# Shapes of token text

A **shape** is a set of texts that a token may have at the front of a source,
together with the rule that says how much of the source it takes.
`Shape.split` cuts a text into the piece that the shape takes and the rest.

* `strip?_eq_some_iff` — what is left after a fixed text;
* `Shape.split_append` — the two parts make up the text, so a shape takes a
  piece from the front and changes nothing;
* `Shape.advance_lineEnd` — a line end leads to the next line.
-/

namespace TildeLang

/-- The sets of characters of which runs are made. -/
inductive Alphabet where
  /-- White space that ends no line. -/
  | blank
  /-- The ten digits. -/
  | digit
  /-- The small letters and the underscore. -/
  | name
deriving DecidableEq, Repr

/-- Membership in an alphabet. -/
def Alphabet.holds : Alphabet → Char → Bool
  | blank, c => Text.isBlank c
  | digit, c => c.isDigit
  | name, c => c.isLower || c == '_'

/-- The ways in which the text of a token is laid out. -/
inductive Shape where
  /-- A fixed text. -/
  | fixed (text : List Char)
  /-- A fixed text that ends at a word boundary. -/
  | word (text : List Char)
  /-- A carriage return, a line feed, or both in that order. -/
  | lineEnd
  /-- The longest run of an alphabet, if it has the least length. -/
  | run (least : Nat) (alphabet : Alphabet)
  /-- From a mark up to and including its next occurrence. -/
  | enclosed (mark : Char)
  /-- From a mark up to the end of the line. -/
  | restOfLine (mark : Char)
deriving DecidableEq, Repr

/-- What follows a fixed text at the front of another one. -/
def strip? : List Char → List Char → Option (List Char)
  | [], rest => some rest
  | _ :: _, [] => none
  | t :: text, c :: rest => if t = c then strip? text rest else none

theorem strip?_eq_some_iff {text whole rest : List Char} :
    strip? text whole = some rest ↔ whole = text ++ rest := by
  fun_induction strip? text whole with
  | case1 whole => simp
  | case2 => simp
  | case3 t text whole ih => simpa using ih
  | case4 t text c whole hne =>
      simp only [List.cons_append, List.cons.injEq, reduceCtorEq, false_iff, not_and]
      exact fun heq _ => hne heq.symm

namespace Shape

/-- Whether a text begins with a word character. -/
def startsWord : List Char → Bool
  | [] => false
  | c :: _ => Text.isWord c

/-- Takes a fixed text. -/
def splitFixed (text whole : List Char) : Option (List Char × List Char) :=
  (strip? text whole).map fun rest => (text, rest)

/-- Takes a fixed text that is not followed by a word character. -/
def splitWord (text whole : List Char) : Option (List Char × List Char) :=
  (strip? text whole).bind fun rest =>
    if startsWord rest then none else some (text, rest)

/-- Takes one line end. -/
def splitLineEnd : List Char → Option (List Char × List Char)
  | [] => none
  | '\r' :: '\n' :: rest => some (['\r', '\n'], rest)
  | c :: rest => if Text.endsLine c then some ([c], rest) else none

/-- Takes the longest run of accepted characters, if it is long enough. -/
def splitRun (least : Nat) (accepts : Char → Bool) (whole : List Char) :
    Option (List Char × List Char) :=
  let taken := whole.takeWhile accepts
  if least ≤ taken.length then some (taken, whole.dropWhile accepts) else none

/-- Takes a mark, everything up to its next occurrence, and that occurrence. -/
def splitEnclosed (mark : Char) : List Char → Option (List Char × List Char)
  | [] => none
  | c :: more =>
      if c = mark then
        match more.dropWhile (· != mark) with
        | [] => none
        | close :: rest => some (c :: (more.takeWhile (· != mark) ++ [close]), rest)
      else none

/-- Takes a mark and the rest of its line. -/
def splitRestOfLine (mark : Char) : List Char → Option (List Char × List Char)
  | [] => none
  | c :: more =>
      if c = mark then
        some (c :: more.takeWhile (!Text.endsLine ·), more.dropWhile (!Text.endsLine ·))
      else none

/-- The piece that a shape takes from the front of a text, and the rest. -/
def split : Shape → List Char → Option (List Char × List Char)
  | fixed text => splitFixed text
  | word text => splitWord text
  | lineEnd => splitLineEnd
  | run least alphabet => splitRun least alphabet.holds
  | enclosed mark => splitEnclosed mark
  | restOfLine mark => splitRestOfLine mark

theorem splitFixed_eq_some_iff {text whole taken rest : List Char} :
    splitFixed text whole = some (taken, rest) ↔ taken = text ∧ whole = text ++ rest := by
  simp only [splitFixed, Option.map_eq_some_iff, strip?_eq_some_iff, Prod.mk.injEq]
  constructor
  · rintro ⟨r, hr, rfl, rfl⟩
    exact ⟨rfl, hr⟩
  · rintro ⟨rfl, hw⟩
    exact ⟨rest, hw, rfl, rfl⟩

theorem splitWord_eq_some_iff {text whole taken rest : List Char} :
    splitWord text whole = some (taken, rest) ↔
      taken = text ∧ whole = text ++ rest ∧ startsWord rest = false := by
  simp only [splitWord, Option.bind_eq_some_iff, strip?_eq_some_iff]
  constructor
  · rintro ⟨r, hr, h⟩
    cases hs : startsWord r with
    | true => simp [hs] at h
    | false =>
        simp only [hs, Bool.false_eq_true, ite_false, Option.some.injEq, Prod.mk.injEq] at h
        obtain ⟨rfl, rfl⟩ := h
        exact ⟨rfl, hr, hs⟩
  · rintro ⟨rfl, hw, hs⟩
    exact ⟨rest, hw, by simp [hs]⟩

/-- A line end is a carriage return with its line feed, or a single character
that ends a line.  A carriage return by itself has no line feed after it. -/
theorem splitLineEnd_eq_some {whole taken rest : List Char}
    (h : splitLineEnd whole = some (taken, rest)) :
    whole = taken ++ rest ∧ (taken = ['\r', '\n'] ∨
      ∃ c, taken = [c] ∧ Text.endsLine c = true ∧ (c = '\r' → rest.head? ≠ some '\n')) := by
  fun_cases splitLineEnd whole with
  | case1 => simp [splitLineEnd] at h
  | case2 more =>
      simp only [splitLineEnd, Option.some.injEq, Prod.mk.injEq] at h
      obtain ⟨rfl, rfl⟩ := h
      exact ⟨rfl, .inl rfl⟩
  | case3 c more hpair hc =>
      rw [splitLineEnd.eq_3 _ _ hpair] at h
      simp only [hc, ite_true, Option.some.injEq, Prod.mk.injEq] at h
      obtain ⟨rfl, rfl⟩ := h
      refine ⟨rfl, .inr ⟨c, rfl, hc, fun hreturn hfeed => ?_⟩⟩
      obtain ⟨later, rfl⟩ := List.head?_eq_some_iff.mp hfeed
      exact hpair later hreturn rfl
  | case4 c more hpair hc =>
      rw [splitLineEnd.eq_3 _ _ hpair] at h
      simp [hc] at h

/-- A line end leads to the next line. -/
theorem advance_lineEnd {whole taken rest : List Char}
    (h : splitLineEnd whole = some (taken, rest)) (p : Position) :
    p.advance taken = p.nextLine := by
  obtain ⟨_, rfl | ⟨c, rfl, hends, _⟩⟩ := splitLineEnd_eq_some h
  · rfl
  · rw [Position.advance.eq_3 p c [] (by simp), if_pos hends]
    rfl

/-- **Nothing is lost.**  The piece taken and the rest are the whole text. -/
theorem split_append {shape : Shape} {whole taken rest : List Char}
    (h : shape.split whole = some (taken, rest)) : whole = taken ++ rest := by
  cases shape with
  | fixed text =>
      obtain ⟨rfl, hw⟩ := splitFixed_eq_some_iff.1 h
      exact hw
  | word text =>
      obtain ⟨rfl, hw, _⟩ := splitWord_eq_some_iff.1 h
      exact hw
  | lineEnd => exact (splitLineEnd_eq_some h).1
  | run least alphabet =>
      simp only [split, splitRun] at h
      split at h
      · simp only [Option.some.injEq, Prod.mk.injEq] at h
        obtain ⟨rfl, rfl⟩ := h
        exact List.takeWhile_append_dropWhile.symm
      · simp at h
  | enclosed mark =>
      cases whole with
      | nil => simp [split, splitEnclosed] at h
      | cons c more =>
          simp only [split, splitEnclosed] at h
          split at h
          · cases hd : more.dropWhile (· != mark) with
            | nil => simp [hd] at h
            | cons close tail =>
                simp only [hd, Option.some.injEq, Prod.mk.injEq] at h
                obtain ⟨rfl, rfl⟩ := h
                have hmore : more.takeWhile (· != mark) ++ close :: tail = more := by
                  rw [← hd]
                  exact List.takeWhile_append_dropWhile
                simp [hmore]
          · simp at h
  | restOfLine mark =>
      cases whole with
      | nil => simp [split, splitRestOfLine] at h
      | cons c more =>
          simp only [split, splitRestOfLine] at h
          split at h
          · simp only [Option.some.injEq, Prod.mk.injEq] at h
            obtain ⟨rfl, rfl⟩ := h
            simp [List.takeWhile_append_dropWhile]
          · simp at h

end Shape

end TildeLang
