import TildeLang.Text.Hidden

/-!
# Characters and texts as messages show them

Messages show a character or a text of the source so that it stays on one
line and can be told apart from its neighbours: a few characters have a short
name after a backslash, hidden characters are written by code point, and
everything else stands for itself.

* `escapeChar` shows one character, to stand between apostrophes;
* `quote` shows a text between double quotes, where an apostrophe needs no
  backslash.
-/

namespace TildeLang.Text

/-- The code point of a character in lower-case hexadecimal, between braces. -/
def codePoint (c : Char) : String :=
  "\\u\x7b" ++ String.ofList (Nat.toDigits 16 c.toNat) ++ "\x7d"

/-- A character as it appears inside a quoted text. -/
def escapeInText (c : Char) : String :=
  match c with
  | '\x00' => "\\0"
  | '\t' => "\\t"
  | '\r' => "\\r"
  | '\n' => "\\n"
  | '"' => "\\\""
  | '\\' => "\\\\"
  | _ => if isHidden c then codePoint c else c.toString

/-- A character as it appears between apostrophes. -/
def escapeChar (c : Char) : String :=
  if c = '\'' then "\\'" else escapeInText c

/-- A text between double quotes. -/
def quote (text : String) : String :=
  "\"" ++ String.join (text.toList.map escapeInText) ++ "\""

end TildeLang.Text
