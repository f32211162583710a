/-!
# Positions in a text

A source text is a list of characters.  Two measures locate a place in it:

* the **byte offset**, the number of bytes that the characters before it take
  in UTF-8 (`byteLength`);
* the **position**, a line and a column, both counted from one.  A line ends
  at a carriage return, a line feed, or the two together in that order, which
  count once; a column counts characters.

`Position.advance` carries a position across a piece of text, and `lines`
cuts a text at its line ends.  Both read a carriage return followed by a line
feed as one line end.

* `Position.advance_append` — a position crosses two pieces one after the
  other, provided the cut does not separate a carriage return from its line
  feed;
* `byteLength_append` — byte lengths add up.
-/

namespace TildeLang

/-- A line and a column, both counted from one. -/
structure Position where
  line : Nat
  column : Nat
deriving DecidableEq, Repr

namespace Position

/-- The position of the first character of every text. -/
def start : Position := ⟨1, 1⟩

/-- The first column of the next line. -/
def nextLine (p : Position) : Position := ⟨p.line + 1, 1⟩

/-- One column further on the same line. -/
def nextColumn (p : Position) : Position := ⟨p.line, p.column + 1⟩

/-- The position written out, as `line 2 column 5`. -/
def describe (p : Position) : String :=
  s!"line {p.line} column {p.column}"

end Position

namespace Text

/-- The two characters that end a line, alone or as a pair. -/
def endsLine (c : Char) : Bool := c == '\r' || c == '\n'

/-- The number of bytes that a text takes in UTF-8. -/
def byteLength (text : List Char) : Nat :=
  text.foldr (fun c n => c.utf8Size + n) 0

@[simp]
theorem byteLength_nil : byteLength [] = 0 := rfl

@[simp]
theorem byteLength_cons (c : Char) (text : List Char) :
    byteLength (c :: text) = c.utf8Size + byteLength text := rfl

@[simp]
theorem byteLength_append (a b : List Char) :
    byteLength (a ++ b) = byteLength a + byteLength b := by
  induction a with
  | nil => simp
  | cons c a ih => simp [ih, Nat.add_assoc]

/-- The pieces of a text between its line ends.  There is one more piece than
there are line ends, so the list is never empty. -/
def lines : List Char → List (List Char)
  | [] => [[]]
  | '\r' :: '\n' :: rest => [] :: lines rest
  | c :: rest =>
      if endsLine c then [] :: lines rest
      else match lines rest with
        | [] => [[c]]
        | line :: more => (c :: line) :: more

end Text

namespace Position

/-- The position reached after a piece of text: a line end starts the next
line, and every other character takes one column. -/
def advance (p : Position) : List Char → Position
  | [] => p
  | '\r' :: '\n' :: rest => p.nextLine.advance rest
  | c :: rest =>
      if Text.endsLine c then p.nextLine.advance rest
      else p.nextColumn.advance rest

/-- A longer list ends as its tail does. -/
private theorem getLast?_cons_of_some {c d : Char} {text : List Char}
    (h : text.getLast? = some d) : (c :: text).getLast? = some d := by
  cases text with
  | nil => simp at h
  | cons x xs => simpa [List.getLast?_cons_cons] using h

/-- **Crossing two pieces.**  The position after `a ++ b` is reached by
crossing `a` and then `b`, unless the cut falls inside a two-character line
end. -/
theorem advance_append (p : Position) (a b : List Char)
    (h : a.getLast? = some '\r' → b.head? ≠ some '\n') :
    p.advance (a ++ b) = (p.advance a).advance b := by
  fun_induction advance p a with
  | case1 p => rfl
  | case2 p rest ih =>
      simpa [advance] using ih fun hl => h (getLast?_cons_of_some (getLast?_cons_of_some hl))
  | case3 p c rest hpair hc ih =>
      rw [List.cons_append, advance.eq_3 _ _ _ ?_]
      · simpa [hc] using ih fun hl => h (getLast?_cons_of_some hl)
      · intro rest' hcr happ
        cases rest with
        | nil =>
            have hb : b = '\n' :: rest' := by simpa using happ
            exact h (by simp [hcr]) (by simp [hb])
        | cons x xs =>
            have hx : x = '\n' := by
              have := congrArg List.head? happ
              simpa using this
            exact hpair xs hcr (by rw [hx])
  | case4 p c rest hpair hc ih =>
      have hcr : c ≠ '\r' := by
        intro heq
        exact hc (by simp [heq, Text.endsLine])
      rw [List.cons_append, advance.eq_3 _ _ _ (fun _ heq => absurd heq hcr)]
      simpa [hc] using ih fun hl => h (getLast?_cons_of_some hl)

end Position

end TildeLang
