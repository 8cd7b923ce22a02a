import CondAttrs.Decimal.Binary64

/-!
# JSON values

The values that a settings file can hold. Integers are exact and of any size; a
number with a fraction or exponent is a double. A string is a list of symbols: by
an escape a string can hold half of a surrogate pair, which is no character.
Objects keep their keys in the order of first occurrence.
-/

namespace CondAttrs.Json

/-- One element of a string. -/
inductive Symbol where
  /-- A character. -/
  | char (c : Char)
  /-- Half of a surrogate pair, by its code. -/
  | half (code : Nat)
deriving DecidableEq

/-- The text of a string. -/
abbrev Str := List Symbol

/-- A text as a string. -/
def Str.ofText (t : Text) : Str :=
  t.map .char

/-- The character of a symbol; the replacement character stands for a half. -/
def Symbol.toChar : Symbol → Char
  | char c => c
  | half _ => Char.ofNat 0xFFFD

/-- A string as a text. -/
def Str.toText (s : Str) : Text :=
  s.map Symbol.toChar

/-- A value. -/
inductive Value where
  | null
  | bool (b : Bool)
  | integer (n : Int)
  | real (x : Binary64)
  | string (s : Str)
  | array (items : List Value)
  | object (fields : List (Str × Value))

namespace Value

/-- The fields of an object with one more: a key that is there already keeps its
place and takes the new value. -/
def insertField (key : Str) (value : Value) : List (Str × Value) → List (Str × Value)
  | [] => [(key, value)]
  | (k, v) :: rest =>
    if k = key then (k, value) :: rest else (k, v) :: insertField key value rest

/-- The value of a key. -/
def field? (key : Text) : List (Str × Value) → Option Value
  | [] => none
  | (k, v) :: rest => if k = Str.ofText key then some v else field? key rest

end Value

end CondAttrs.Json
