import CondAttrs.Diagnostic.Fault
import CondAttrs.Position

/-!
# Diagnostics

A diagnostic is a fault together with the two ways to find it: the pointer of
the thing at fault in the structure of the source (empty for a lexical fault,
which has no structure yet), and the position of a character.
-/

namespace CondAttrs

/-- A fault and its place. -/
structure Diagnostic where
  /-- The cause. -/
  fault : Fault
  /-- The place in the structure of the source. -/
  pointer : Text
  /-- The place in the text. -/
  pos : Position
deriving DecidableEq

namespace Diagnostic

/-- A lexical fault points into the text only. -/
def lexical (fault : Fault) (pos : Position) : Diagnostic :=
  ⟨fault, [], pos⟩

/-- How much the fault weighs. -/
def severity (d : Diagnostic) : Severity :=
  d.fault.severity

/-- Whether the fault is an error. -/
def isError (d : Diagnostic) : Bool :=
  d.severity = .error

end Diagnostic

end CondAttrs
