/-!
# Ranges of characters

A class of characters is a list of ranges of code points, both ends included.
-/

namespace ModuleHost.Text

/-- Both ends of a range of code points. -/
abbrev CharRange := Nat × Nat

def inRanges (ranges : List CharRange) (c : Char) : Bool :=
  ranges.any fun range => range.1 ≤ c.toNat && c.toNat ≤ range.2

end ModuleHost.Text
