/-!
# JSON texts

A **JSON value** is what the program prints: nothing, truth values, natural
numbers, texts, lists and records whose fields keep their order.  One writer,
`Json.write`, serves two layouts:

* `Json.compact` puts everything on one line without blanks;
* `Json.pretty` gives every item and every field a line of its own, indented
  by two blanks for each list or record around it.  An empty list or record
  stays on its line.

Inside a text, quotes, backslashes and the control characters below the blank
are escaped, and nothing else is.
-/

namespace TildeLang

/-- Values with a written form. -/
inductive Json where
  | null
  | bool (b : Bool)
  | number (n : Nat)
  | string (s : String)
  | array (items : List Json)
  | object (fields : List (String × Json))
deriving Repr

namespace Json

/-- One digit in lower-case hexadecimal. -/
def hexDigit (n : Nat) : Char := Nat.digitChar (n % 16)

/-- A character as it appears inside a text. -/
def escape (c : Char) : List Char :=
  match c with
  | '"' => ['\\', '"']
  | '\\' => ['\\', '\\']
  | '\x08' => ['\\', 'b']
  | '\x0c' => ['\\', 'f']
  | '\n' => ['\\', 'n']
  | '\r' => ['\\', 'r']
  | '\t' => ['\\', 't']
  | _ =>
      if c.toNat < 32 then ['\\', 'u', '0', '0', hexDigit (c.toNat / 16), hexDigit c.toNat]
      else [c]

/-- A text between quotes. -/
def quote (s : String) : String :=
  String.ofList ('"' :: (s.toList.flatMap escape ++ ['"']))

/-- A layout says how a line starts inside so many lists and records, and what
stands between the name of a field and its value. -/
structure Layout where
  newLine : Nat → String
  colon : String

/-- Everything on one line, without blanks. -/
def Layout.oneLine : Layout where
  newLine _ := ""
  colon := ":"

/-- A line for every item and field, indented by two blanks a level. -/
def Layout.indented : Layout where
  newLine depth := String.ofList ('\n' :: List.replicate (2 * depth) ' ')
  colon := ": "

variable (layout : Layout)

mutual

/-- The text of a value inside so many lists and records. -/
def write (depth : Nat) : Json → String
  | null => "null"
  | bool true => "true"
  | bool false => "false"
  | number n => toString n
  | string s => quote s
  | array [] => "[]"
  | array (item :: more) =>
      "[" ++ layout.newLine (depth + 1) ++ item.write (depth + 1) ++
        writeItems (depth + 1) more ++ layout.newLine depth ++ "]"
  | object [] => "\x7b\x7d"
  | object ((name, value) :: more) =>
      "\x7b" ++ layout.newLine (depth + 1) ++ quote name ++ layout.colon ++
        value.write (depth + 1) ++ writeFields (depth + 1) more ++ layout.newLine depth ++ "\x7d"

/-- The items after the first one, each after a comma. -/
def writeItems (depth : Nat) : List Json → String
  | [] => ""
  | item :: more => "," ++ layout.newLine depth ++ item.write depth ++ writeItems depth more

/-- The fields after the first one, each after a comma. -/
def writeFields (depth : Nat) : List (String × Json) → String
  | [] => ""
  | (name, value) :: more =>
      "," ++ layout.newLine depth ++ quote name ++ layout.colon ++ value.write depth ++
        writeFields depth more

end

/-- A value on one line, without blanks. -/
def compact (value : Json) : String := value.write .oneLine 0

/-- A value over several lines. -/
def pretty (value : Json) : String := value.write .indented 0

end Json

end TildeLang
