import CondAttrs.Settings.Basic
import CondAttrs.Text.Quoted

/-!
# Errors inside the output

An error must not be lost with the output that could not be made. It is carried
into the output as an invocation that fails when the output is compiled: as an
attribute in the place of a failed annotation, or as an item in the place of a
whole declaration. The message is a quoted literal, so no message can break out
of its place.
-/

namespace CondAttrs.Embed

/-- The path of the failing invocation, up to its mark. -/
def invocation (s : Settings) : Text :=
  "::core::" ++ s.errorName ++ "!"

/-- The attribute that fails with a message, behind the given trivia. -/
def attributeText (s : Settings) (leading message : Text) : Text :=
  leading ++ "#[doc = " ++ invocation s ++ "(" ++ Text.Quoted.encode message ++ ")]"

/-- The item that fails with a message. -/
def itemText (s : Settings) (message : Text) : Text :=
  invocation s ++ " \x7b " ++ Text.Quoted.encode message ++ " \x7d"

end CondAttrs.Embed
