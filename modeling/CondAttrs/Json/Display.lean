import CondAttrs.Decimal.Shortest
import CondAttrs.Json.Basic
import CondAttrs.Text.Display

/-!
# JSON values in messages

A message about a refused value shows it in one line: strings in visible form,
the constants as `None`, `True` and `False`, numbers in full or in their shortest
form, arrays and objects with a comma and a space between entries.
-/

namespace CondAttrs.Json

/-- One symbol as it shows between two marks `quote`. -/
def Symbol.shown (quote : Char) : Symbol → Text
  | char c => Text.shown quote c
  | half code => Text.codeEscape code

/-- A string between quotes, every symbol visible. -/
def Str.display (s : Str) : Text :=
  let quote := Text.quoteFor s.toText
  quote :: s.flatMap (Symbol.shown quote) ++ [quote]

namespace Value

mutual

/-- A value in one line. -/
def display : Value → Text
  | null => "None"
  | bool b => if b then "True" else "False"
  | integer n => Text.integer n
  | real x => x.text
  | string s => s.display
  | array items => '[' :: Text.join ", " (displayAll items) ++ [']']
  | object fields => '\x7b' :: Text.join ", " (displayFields fields) ++ ['\x7d']

/-- The values of a list, each in one line. -/
def displayAll : List Value → List Text
  | [] => []
  | v :: rest => display v :: displayAll rest

/-- The fields of an object, each with its key. -/
def displayFields : List (Str × Value) → List Text
  | [] => []
  | (key, v) :: rest => (key.display ++ ": " ++ display v) :: displayFields rest

end

end Value

end CondAttrs.Json
