import CondAttrs.Text.Printable

/-!
# Texts shown in messages

A message that mentions a value shows it between quotes, so that blanks at its
ends and invisible characters can be seen. Single quotes are used unless the
text holds a single quote and no double quote. The quote in use and the
backslash are escaped; line feed, carriage return and tab have their short
escapes; any other unprintable character is written by its code point, with two,
four or eight hexadecimal digits.
-/

namespace CondAttrs.Text

/-- The escape of a code point by its number. -/
def codeEscape (code : Nat) : Text :=
  if code < 0x100 then '\\' :: 'x' :: hex 2 code
  else if code < 0x10000 then '\\' :: 'u' :: hex 4 code
  else '\\' :: 'U' :: hex 8 code

/-- One character as it shows between two marks `quote`. -/
def shown (quote : Char) (c : Char) : Text :=
  if c = quote || c = '\\' then ['\\', c]
  else if c = '\n' then ['\\', 'n']
  else if c = '\r' then ['\\', 'r']
  else if c = '\t' then ['\\', 't']
  else if isPrintable c then [c]
  else codeEscape c.toNat

/-- The quotation mark that shows a text with the fewer escapes; single quotes
win a tie. -/
def quoteFor (t : Text) : Char :=
  if t.contains '\'' && !t.contains '"' then '"' else '\''

/-- A text between quotes, every character visible. -/
def display (t : Text) : Text :=
  quoteFor t :: t.flatMap (shown (quoteFor t)) ++ [quoteFor t]

end CondAttrs.Text
