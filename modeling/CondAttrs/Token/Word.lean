import CondAttrs.Text.Digit
import CondAttrs.Text.Letter

/-!
# Words

The characters of identifiers. A word starts with a letter or an underscore and
goes on with letters, digits, other numerals and underscores. Lifetimes, literal
suffixes and numbers are made of the same characters.
-/

namespace CondAttrs

/-- Whether a word can start with the character. -/
def isWordStart (c : Char) : Bool :=
  Text.isLetter c || c = '_'

/-- Whether a word can go on with the character. -/
def isWordPart (c : Char) : Bool :=
  isWordStart c || Text.isDigit c || Text.isNumeral c

theorem isWordPart_of_isWordStart {c : Char} (h : isWordStart c = true) : isWordPart c = true := by
  simp [isWordPart, h]

theorem isWordPart_of_isDigit {c : Char} (h : Text.isDigit c = true) : isWordPart c = true := by
  simp [isWordPart, h]

/-- The characters of a word at the start of a text, and the rest. -/
def spanWord (t : Text) : Text × Text :=
  (t.takeWhile isWordPart, t.dropWhile isWordPart)

theorem spanWord_append (t : Text) : (spanWord t).1 ++ (spanWord t).2 = t :=
  List.takeWhile_append_dropWhile

end CondAttrs
