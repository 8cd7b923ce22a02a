import CondAttrs.Attribute.Basic
import CondAttrs.Diagnostic.Embed

/-!
# The native form of directives

A directive becomes one native attribute with the same condition and, separated
by commas, the contents of its nested attributes. A nested directive is not
resolved at once. It is *deferred*: written again as a directive in which every
nested attribute stands in brackets, for a later run that sees it at the top. A
directive without attributes keeps the comma behind its condition.

The trivia in front of an annotation is kept; a failed annotation is replaced by
an attribute that carries its message.

## Main definitions

* `Attribute.content`: what a nested attribute says, a directive in deferred form.
* `Body.native`: the native attribute of a directive.
* `Attachment.lower`: what an annotation becomes.
-/

namespace CondAttrs

/-- The arguments of a conditional attribute. -/
def conditionalArguments (condition : Text) : List Text → Text
  | [] => condition ++ ","
  | contents => Text.join ", " (condition :: contents)

/-- A content as a full attribute. -/
def bracketed (content : Text) : Text :=
  "#[" ++ content ++ "]"

/-- A directive written again, from the contents of its attributes. -/
def deferredText (form : Form) (condition : Text) (contents : List Text) : Text :=
  form.pathText ++ "(" ++ conditionalArguments condition (contents.map bracketed) ++ ")"

mutual

/-- What stands between the brackets when the attribute is written in full. -/
def Attribute.content : Attribute → Text
  | .plain form => form.contentText
  | .directive form ⟨condition, _, _, attributes⟩ =>
    deferredText form (Text.strip (Token.renderAll condition)) (Attribute.contents attributes)

/-- The contents of the attributes of a list. -/
def Attribute.contents : List Attribute → List Text
  | [] => []
  | attr :: rest => attr.content :: Attribute.contents rest

end

theorem Attribute.contents_eq_map (attributes : List Attribute) :
    Attribute.contents attributes = attributes.map Attribute.content := by
  induction attributes with
  | nil => simp [Attribute.contents]
  | cons attr rest ih => simp [Attribute.contents, ih]

namespace Body

/-- The directive in deferred form. -/
def deferred (form : Form) (b : Body Attribute) : Text :=
  deferredText form b.conditionText (Attribute.contents b.attributes)

/-- The native attribute with the arguments of a directive. -/
def native (s : Settings) (inner : Bool) (b : Body Attribute) : Text :=
  (if inner then "#![" else "#[") ++ s.native ++ "(" ++
    conditionalArguments b.conditionText (Attribute.contents b.attributes) ++ ")]"

end Body

namespace Attachment

/-- What an annotation becomes in the output. -/
def lower (s : Settings) : Attachment → Text
  | accepted (.plain form) => Token.renderAll form.tokens
  | accepted (.directive form body) => form.leading ++ body.native s form.isInner
  | failed form diagnostic => Embed.attributeText s form.leading diagnostic.fault.message

/-- What the annotations of one attachment point become. -/
def lowerAll (s : Settings) (attachments : List Attachment) : Text :=
  attachments.flatMap (lower s)

end Attachment

end CondAttrs
