import TildeLang.Json
import TildeLang.Token.Basic

/-!
# Tokens as JSON

A token is written as a record: its category, kind, value and text, its byte
offsets, and its position.
-/

namespace TildeLang

/-- A number, a text or a truth value. -/
def Value.toJson : Value → Json
  | number n => .number n.toNat
  | text s => .string s
  | truth b => .bool b

/-- The record of a token. -/
def Token.toJson (t : Token) : Json :=
  .object
    [("category", .string t.category.name),
     ("kind", .string t.kind.name),
     ("value", t.value.toJson),
     ("raw", .string t.raw),
     ("start", .number t.start),
     ("end", .number t.stop),
     ("line", .number t.position.line),
     ("column", .number t.position.column)]

/-- The list of the records of tokens. -/
def Token.listToJson (ts : List Token) : Json := .array (ts.map Token.toJson)

end TildeLang
