import TildeLang.Text.Position
import TildeLang.Token.Kind

/-!
# Tokens

A **token** is one piece of a source: its kind and category, the text it was
read from, the value that text stands for, and the place where it stands.  A
piece that is trivia has the same form, so a source is the sequence of all
its tokens, trivia included.
-/

namespace TildeLang

/-- What the text of a token stands for. -/
inductive Value where
  | number (n : UInt64)
  | text (s : String)
  | truth (b : Bool)
deriving DecidableEq, Repr

/-- A value written out: numbers in base ten, texts without quotes. -/
def Value.describe : Value → String
  | number n => toString n.toNat
  | text s => s
  | truth true => "true"
  | truth false => "false"

/-- One piece of a source, with its byte offsets and its position. -/
structure Token where
  category : Category
  kind : Kind
  value : Value
  raw : String
  start : Nat
  stop : Nat
  position : Position
deriving DecidableEq, Repr

/-- White space and comments. -/
def Token.isTrivia (t : Token) : Bool := t.category.isTrivia

end TildeLang
