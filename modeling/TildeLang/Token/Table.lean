import TildeLang.Token.Basic
import TildeLang.Token.Shape

/-!
# The token table

The vocabulary of Tilde is an ordered table.  Each **row** gives a kind of
token, the shape of its text and the way in which that text is read as a
value.  At any place of a source the first row that takes something decides,
so the order of the rows is part of the language.

* `Row.split_append` — a row takes a piece from the front of the text;
* `Row.split_ne_nil` — that piece is never empty;
* `firstMatch?_mem` — the row that decides is a row of the table and takes
  the piece.
-/

namespace TildeLang

/-- The ways in which the text of a token is read as a value. -/
inductive Reading where
  /-- The text stands for itself. -/
  | verbatim
  /-- The text is a number in base ten. -/
  | number
  /-- The value is the text without its two outermost characters. -/
  | unquoted
  /-- The value is fixed, whatever the text. -/
  | truth (b : Bool)
deriving DecidableEq, Repr

namespace Reading

/-- The number that a run of digits denotes in base ten. -/
def decimal (digits : List Char) : Nat :=
  digits.foldl (fun n c => 10 * n + (c.toNat - '0'.toNat)) 0

/-- What follows a plus sign, if there is one. -/
def afterSign : List Char → List Char
  | '+' :: digits => digits
  | digits => digits

/-- Reads one or more digits whose value fits in 64 bits. -/
def readDigits? (digits : List Char) : Option UInt64 :=
  if digits ≠ [] ∧ digits.all Char.isDigit then
    if h : decimal digits < UInt64.size then some (UInt64.ofNatLT (decimal digits) h) else none
  else none

/-- Reads a number: digits, after a plus sign or not. -/
def readNumber? (text : List Char) : Option UInt64 :=
  readDigits? (afterSign text)

/-- Drops the first and the last byte of a text.  A text that has no two ends
of one byte each gives nothing. -/
def unquote : List Char → List Char
  | [] => []
  | first :: more =>
      match more.getLast? with
      | none => []
      | some last =>
          if first.utf8Size = 1 ∧ last.utf8Size = 1 then more.dropLast else []

/-- The value of a text, or nothing when it has none. -/
def value? : Reading → List Char → Option Value
  | verbatim, text => some (.text (String.ofList text))
  | number, text => (readNumber? text).map .number
  | unquoted, text => some (.text (String.ofList (unquote text)))
  | truth b, _ => some (.truth b)

end Reading

/-- A row of the token table. -/
structure Row where
  category : Category
  kind : Kind
  shape : Shape
  reading : Reading
deriving DecidableEq, Repr

namespace Row

/-- A row whose text stands for itself. -/
def plain (category : Category) (kind : Kind) (shape : Shape) : Row :=
  ⟨category, kind, shape, .verbatim⟩

/-- A row for one fixed text. -/
def symbol (category : Category) (kind : Kind) (text : List Char) : Row :=
  plain category kind (.fixed text)

/-- The piece that a row takes from the front of a text, and the rest.  A row
never takes the empty piece. -/
def split (row : Row) (whole : List Char) : Option (List Char × List Char) :=
  (row.shape.split whole).filter fun (taken, _) => !taken.isEmpty

/-- How many bytes a row takes from the front of a text. -/
def matchLength? (row : Row) (whole : List Char) : Option Nat :=
  (row.split whole).map fun (taken, _) => Text.byteLength taken

theorem split_eq_some_iff {row : Row} {whole taken rest : List Char} :
    row.split whole = some (taken, rest) ↔
      row.shape.split whole = some (taken, rest) ∧ taken ≠ [] := by
  simp [split, Option.filter_eq_some_iff]

/-- The piece taken and the rest are the whole text. -/
theorem split_append {row : Row} {whole taken rest : List Char}
    (h : row.split whole = some (taken, rest)) : whole = taken ++ rest :=
  Shape.split_append (split_eq_some_iff.1 h).1

/-- The piece taken is not empty. -/
theorem split_ne_nil {row : Row} {whole taken rest : List Char}
    (h : row.split whole = some (taken, rest)) : taken ≠ [] :=
  (split_eq_some_iff.1 h).2

end Row

/-- The rows of Tilde, in the order in which they are tried. -/
def tokenTable : List Row :=
  [.plain .whitespace .lineEnd .lineEnd,
   .symbol .whitespace .tab ['\t'],
   .plain .whitespace .whiteSpace (.run 1 .blank),
   .plain .comment .blockComment (.enclosed '/'),
   .plain .comment .lineComment (.restOfLine '#'),
   ⟨.literal, .number, .run 1 .digit, .number⟩,
   ⟨.literal, .string, .enclosed '"', .unquoted⟩,
   ⟨.literal, .char, .enclosed '\'', .unquoted⟩,
   ⟨.literal, .boolFalse, .fixed ['f', 'a', 'l', 's', 'e'], .truth false⟩,
   ⟨.literal, .boolTrue, .fixed ['t', 'r', 'u', 'e'], .truth true⟩,
   .symbol .operator .add ['+'],
   .symbol .operator .sub ['-'],
   .symbol .operator .multiply ['*'],
   .symbol .operator .divide ['/'],
   .symbol .operator .modulo ['%'],
   .symbol .operator .power ['^'],
   .symbol .operator .equal ['=', '='],
   .symbol .operator .greater ['>'],
   .symbol .operator .less ['<'],
   .symbol .operator .and ['&'],
   .symbol .operator .or ['|'],
   .symbol .operator .not ['!'],
   .symbol .operator .assign ['='],
   .symbol .delimiter .assignType [':'],
   .symbol .delimiter .dot ['.'],
   .symbol .delimiter .comma [','],
   .symbol .delimiter .leftBrace ['\x7b'],
   .symbol .delimiter .rightBrace ['\x7d'],
   .symbol .delimiter .leftParen ['('],
   .symbol .delimiter .rightParen [')'],
   .plain .keyword .ifWord (.word ['i', 'f']),
   .symbol .keyword .elseWord ['e', 'l', 's', 'e'],
   .symbol .keyword .shortIf ['?'],
   .plain .declarator .letWord (.word ['l', 'e', 't']),
   .plain .declarator .constWord (.word ['c', 'o', 'n', 's', 't']),
   .plain .identifier .identifier (.run 2 .name)]

/-- The row of a kind. -/
def Row.ofKind? (kind : Kind) : Option Row :=
  tokenTable.find? fun row => row.kind == kind

/-- The first row that takes something from the front of a text, the piece it
takes, and the rest. -/
def firstMatch? (table : List Row) (whole : List Char) :
    Option (Row × List Char × List Char) :=
  table.findSome? fun row => (row.split whole).map fun (taken, rest) => (row, taken, rest)

/-- The row that decides is a row of the table, and it takes the piece. -/
theorem firstMatch?_mem {table : List Row} {whole taken rest : List Char} {row : Row}
    (h : firstMatch? table whole = some (row, taken, rest)) :
    row ∈ table ∧ row.split whole = some (taken, rest) := by
  obtain ⟨r, hr, hm⟩ := List.exists_of_findSome?_eq_some h
  simp only [Option.map_eq_some_iff, Prod.exists, Prod.mk.injEq] at hm
  obtain ⟨a, b, hsplit, rfl, rfl, rfl⟩ := hm
  exact ⟨hr, hsplit⟩

end TildeLang
