import CondAttrs.Text.Basic

/-!
# Pointers into a document

A pointer names a place inside a tree by the list of segments that leads to it.
Its text puts a slash before every segment. Inside a segment a tilde is written
`~0` and a slash `~1`, so that the slashes of the text are exactly the borders
between segments, and pointers can be extended by appending texts.
-/

namespace CondAttrs.Pointer

/-- One character of a segment. -/
def encodeChar : Char → Text
  | '~' => ['~', '0']
  | '/' => ['~', '1']
  | c => [c]

/-- A segment, escaped. -/
def encodeSegment (segment : Text) : Text :=
  segment.flatMap encodeChar

/-- The pointer made of the given segments; the empty one points at the root. -/
def ofSegments (segments : List Text) : Text :=
  segments.flatMap fun segment => '/' :: encodeSegment segment

/-- The place `name` under `pointer`, and there the entry number `index`. -/
def entry (pointer : Text) (name : Text) (index : Nat) : Text :=
  pointer ++ ofSegments [name, Text.decimal index]

/-- Pointers to nested places are concatenations. -/
theorem ofSegments_append (first second : List Text) :
    ofSegments (first ++ second) = ofSegments first ++ ofSegments second := by
  simp [ofSegments]

end CondAttrs.Pointer
