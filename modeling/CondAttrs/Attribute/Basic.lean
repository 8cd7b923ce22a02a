import CondAttrs.Attribute.Form
import CondAttrs.Diagnostic.Basic

/-!
# Attributes and attachments

An attribute is either left as it is, or it is a directive: a condition and a
list of attributes that hold under it, which may be directives in turn. What is
attached to a place of the source is one accepted attribute or one failed
annotation. A fault anywhere inside a directive fails the whole annotation, so the
attributes nested in a directive are always accepted ones.
-/

namespace CondAttrs

/-- The arguments of a directive. -/
structure Body (α : Type) where
  /-- The tokens before the first comma. -/
  condition : List Token
  /-- Where that comma stands. -/
  separator : Position
  /-- Whether the attributes stand between braces. -/
  braced : Bool
  /-- The attributes that hold under the condition. -/
  attributes : List α

/-- The condition as text. -/
def Body.conditionText {α : Type} (b : Body α) : Text :=
  Text.strip (Token.renderAll b.condition)

/-- An attribute that has been understood. -/
inductive Attribute where
  /-- An attribute that is no directive. -/
  | plain (form : Form)
  /-- A directive. -/
  | directive (form : Form) (body : Body Attribute)

/-- How the attribute is written. -/
def Attribute.form : Attribute → Form
  | plain form => form
  | directive form _ => form

/-- One annotation at an attachment point. -/
inductive Attachment where
  /-- An attribute that fits the grammar. -/
  | accepted (attr : Attribute)
  /-- A directive that does not, and why. -/
  | failed (form : Form) (diagnostic : Diagnostic)

namespace Attachment

/-- How the annotation is written. -/
def form : Attachment → Form
  | accepted attr => attr.form
  | failed form _ => form

/-- The tokens of the annotation. -/
def tokens (a : Attachment) : List Token :=
  a.form.tokens

/-- The fault of a failed annotation. -/
def fault? : Attachment → Option Diagnostic
  | accepted _ => none
  | failed _ diagnostic => some diagnostic

end Attachment

end CondAttrs
