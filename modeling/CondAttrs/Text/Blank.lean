import CondAttrs.Text.Ranges

/-!
# Blank characters

The characters that count as white space between tokens and at the two ends of a
text: the ASCII controls from tab to carriage return, the four separator
controls, the next-line control, and the characters whose category or
bidirectional class is that of a space or separator. The zero-width characters
(U+200B, U+2060, U+FEFF) are not blank.
-/

namespace CondAttrs.Text

/-- White space beyond ASCII. -/
def blankRanges : Ranges :=
  [ (0x85, 0x85), (0xA0, 0xA0), (0x1680, 0x1680), (0x2000, 0x200A), (0x2028, 0x2029),
    (0x202F, 0x202F), (0x205F, 0x205F), (0x3000, 0x3000) ]

/-- Whether a character is white space. -/
def isBlank (c : Char) : Bool :=
  if c.toNat < 0x80 then c = ' ' || within '\t' '\r' c || within '\x1c' '\x1f' c
  else blankRanges.has c.toNat

/-- The text without the blanks at its start. -/
def trimLeft (t : Text) : Text :=
  t.dropWhile isBlank

/-- The text without the blanks at its end. -/
def trimRight (t : Text) : Text :=
  (t.reverse.dropWhile isBlank).reverse

/-- The text without the blanks at its two ends. -/
def strip (t : Text) : Text :=
  trimRight (trimLeft t)

end CondAttrs.Text
