import CondAttrs.Text.Basic

/-!
# Strings in printed JSON

Quote and backslash are escaped, and so are the control characters below the
space: five of them by a letter, the others by their number. Every other
character is printed as it is.
-/

namespace CondAttrs.Json

/-- One character between the quotes. -/
def encodeChar (c : Char) : Text :=
  if c = '"' then ['\\', '"']
  else if c = '\\' then ['\\', '\\']
  else if c = '\n' then ['\\', 'n']
  else if c = '\r' then ['\\', 'r']
  else if c = '\t' then ['\\', 't']
  else if c = '\x0c' then ['\\', 'f']
  else if c = '\x08' then ['\\', 'b']
  else if c.toNat < 0x20 then '\\' :: 'u' :: Text.hex 4 c.toNat
  else [c]

/-- A text as a JSON string. -/
def quoted (t : Text) : Text :=
  '"' :: t.flatMap encodeChar ++ ['"']

end CondAttrs.Json
