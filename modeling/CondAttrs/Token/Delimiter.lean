import CondAttrs.Text.Basic

/-!
# Delimiters

The three pairs of brackets that nest.
-/

namespace CondAttrs

/-- A pair of brackets. -/
inductive Delimiter where
  | paren
  | bracket
  | brace
deriving DecidableEq

namespace Delimiter

/-- The opening bracket. -/
def opening : Delimiter → Char
  | paren => '('
  | bracket => '['
  | brace => '\x7b'

/-- The closing bracket. -/
def closing : Delimiter → Char
  | paren => ')'
  | bracket => ']'
  | brace => '\x7d'

/-- The pair that a character opens. -/
def ofOpening? (c : Char) : Option Delimiter :=
  if c = '(' then some paren
  else if c = '[' then some bracket
  else if c = '\x7b' then some brace
  else none

/-- The pair that a character closes. -/
def ofClosing? (c : Char) : Option Delimiter :=
  if c = ')' then some paren
  else if c = ']' then some bracket
  else if c = '\x7d' then some brace
  else none

theorem ofOpening?_eq_some_iff {c : Char} {d : Delimiter} :
    ofOpening? c = some d ↔ c = d.opening := by
  unfold ofOpening?
  constructor
  · intro h
    split at h
    · cases h; assumption
    split at h
    · cases h; assumption
    split at h
    · cases h; assumption
    · cases h
  · rintro rfl; cases d <;> rfl

theorem ofClosing?_eq_some_iff {c : Char} {d : Delimiter} :
    ofClosing? c = some d ↔ c = d.closing := by
  unfold ofClosing?
  constructor
  · intro h
    split at h
    · cases h; assumption
    split at h
    · cases h; assumption
    split at h
    · cases h; assumption
    · cases h
  · rintro rfl; cases d <;> rfl

end Delimiter

end CondAttrs
