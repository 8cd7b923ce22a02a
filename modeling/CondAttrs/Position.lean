import CondAttrs.Text.Basic

/-!
# Positions

A position is the line and column of a character, both counted from one; the
column counts characters since the last line feed. Positions are never searched
for: a position is moved along by every character that is read, and
`Position.after` says where a whole text ends.
-/

namespace CondAttrs

/-- A line and a column. -/
structure Position where
  /-- The line, from one. -/
  line : Nat
  /-- The column in its line, from one. -/
  col : Nat
deriving DecidableEq

namespace Position

/-- Where a text starts. -/
def start : Position := ⟨1, 1⟩

/-- The position of a thing that stands in no text. -/
def nowhere : Position := ⟨0, 0⟩

/-- The position behind one character. -/
def step (p : Position) (c : Char) : Position :=
  if c = '\n' then ⟨p.line + 1, 1⟩ else ⟨p.line, p.col + 1⟩

/-- The position behind a text that starts at `p`. -/
def after (p : Position) (t : Text) : Position :=
  t.foldl step p

@[simp] theorem after_nil (p : Position) : p.after [] = p := rfl

@[simp] theorem after_cons (p : Position) (c : Char) (t : Text) :
    p.after (c :: t) = (p.step c).after t := rfl

theorem after_append (p : Position) (t u : Text) : p.after (t ++ u) = (p.after t).after u := by
  simp [after]

end Position

end CondAttrs
