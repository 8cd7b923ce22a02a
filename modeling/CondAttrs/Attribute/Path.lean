import CondAttrs.Token.Basic

/-!
# Paths

The path at the head of an attribute: identifiers with `::` between them, and
possibly one `::` in front. A `::` is a colon joined to a second colon. The
longest path at the start of a token list is taken, so a `::` with no identifier
behind it belongs to what follows.
-/

namespace CondAttrs.AttributePath

/-- Whether two tokens make up the separator of path segments. -/
def isSeparator (first second : Token) : Bool :=
  first.isJoint ':' && second.isPunct ':'

/-- The further segments of a path, each with the separator in front, and the
rest. -/
def spanSegments : List Token → List Token × List Token
  | first :: second :: segment :: rest =>
    if isSeparator first second && segment.isIdent then
      (first :: second :: segment :: (spanSegments rest).1, (spanSegments rest).2)
    else ([], first :: second :: segment :: rest)
  | tokens => ([], tokens)

/-- The path at the start of a token list, empty if there is none, and the rest. -/
def split : List Token → List Token × List Token
  | [] => ([], [])
  | head :: rest =>
    if head.isIdent then (head :: (spanSegments rest).1, (spanSegments rest).2)
    else spanSegments (head :: rest)

/-- The name of a path is its last segment. -/
def name (path : List Token) : Text :=
  (path.filterMap Token.ident?).getLast?.getD []

theorem spanSegments_append (tokens : List Token) :
    (spanSegments tokens).1 ++ (spanSegments tokens).2 = tokens := by
  fun_induction spanSegments tokens <;> simp_all

/-- The path and the rest make up the tokens. -/
theorem split_append (tokens : List Token) : (split tokens).1 ++ (split tokens).2 = tokens := by
  cases tokens with
  | nil => rfl
  | cons head rest =>
    simp only [split]
    split <;> simp [spanSegments_append]

end CondAttrs.AttributePath
