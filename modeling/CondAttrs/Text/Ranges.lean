import CondAttrs.Text.Basic

/-!
# Sets of characters given by ranges

A character property that no short rule describes is a table: a list of closed
ranges of code points, in increasing order. Membership is a plain search, so a
fact about one character, or about the few characters of a small set, is settled
by evaluation.
-/

namespace CondAttrs.Text

/-- Closed ranges of code points. -/
abbrev Ranges := List (Nat × Nat)

/-- Whether some range holds the code point. -/
def Ranges.has (ranges : Ranges) (code : Nat) : Bool :=
  ranges.any fun (low, high) => low ≤ code && code ≤ high

/-- Whether `c` lies between `low` and `high`, both included. -/
def within (low high : Char) (c : Char) : Bool :=
  low ≤ c && c ≤ high

end CondAttrs.Text
