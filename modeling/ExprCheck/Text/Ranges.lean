/-!
# Character classes by range

A class of characters is written down as a table of code point ranges.
-/

namespace ExprCheck.Text

/-- A table of ranges of code points, both ends included. -/
abbrev Ranges := List (Nat × Nat)

/-- Whether a character lies in one of the ranges. -/
def Ranges.contains (ranges : Ranges) (c : Char) : Bool :=
  ranges.any fun r => r.1 ≤ c.toNat && c.toNat ≤ r.2

end ExprCheck.Text
