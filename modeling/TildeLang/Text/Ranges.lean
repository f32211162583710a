/-!
# Sets of characters given by ranges

A property of characters that follows no short rule is kept as a table: a
list of inclusive ranges of code points.  `Ranges.holds` looks a character up.
-/

namespace TildeLang.Text

/-- Inclusive ranges of code points. -/
abbrev Ranges := List (Nat × Nat)

/-- Whether a character lies in one of the ranges. -/
def Ranges.holds (ranges : Ranges) (c : Char) : Bool :=
  ranges.any fun (first, last) => first ≤ c.toNat && c.toNat ≤ last

end TildeLang.Text
