import CondAttrs.Json.Basic
import CondAttrs.Position

/-!
# Reading JSON

A reader for JSON texts, by recursion on the rest of the text: every function
returns what is left, with the proof that it is shorter. Beside the grammar of
JSON it accepts the three words for numbers that are not finite.

A fault keeps the text from the place of the fault on. Its index in the whole text
follows from the two lengths.

## Main definitions

* `Parser.symbols`: the symbols of a string.
* `Parser.number`: the longest number at the start of a text.
* `Parser.value`: a value.
* `parse`: a whole text.
-/

namespace CondAttrs.Json

/-- What is wrong with a text. -/
inductive Cause where
  | byteOrderMark
  | valueExpected
  | nameExpected
  | colonExpected
  | commaExpected
  | stringUnterminated
  | controlCharacter
  | escapeInvalid
  | codeInvalid
  | extraData
  /-- An integer has more digits than are read. -/
  | integerTooLong (digits : Nat)
deriving DecidableEq

/-- The greatest number of digits of an integer. -/
def maxDigits : Nat := 4300

/-- The sentence for a cause. -/
def Cause.message : Cause → Text
  | byteOrderMark => "Unexpected UTF-8 BOM (decode using utf-8-sig)"
  | valueExpected => "Expecting value"
  | nameExpected => "Expecting property name enclosed in double quotes"
  | colonExpected => "Expecting ':' delimiter"
  | commaExpected => "Expecting ',' delimiter"
  | stringUnterminated => "Unterminated string starting at"
  | controlCharacter => "Invalid control character at"
  | escapeInvalid => "Invalid \\escape"
  | codeInvalid => "Invalid \\uXXXX escape"
  | extraData => "Extra data"
  | integerTooLong digits =>
    "Exceeds the limit (" ++ Text.decimal maxDigits ++
      " digits) for integer string conversion: value has " ++ Text.decimal digits ++
      " digits; use sys.set_int_max_str_digits() to increase the limit"

/-- A cause and the text from its place on. -/
structure Fault where
  /-- What is wrong. -/
  cause : Cause
  /-- The text from there on. -/
  rest : Text

/-- The sentence for a fault in the text `whole`, with its place. -/
def Fault.message (whole : Text) (f : Fault) : Text :=
  let index := whole.length - f.rest.length
  let pos := Position.start.after (whole.take index)
  f.cause.message ++ ": line " ++ Text.decimal pos.line ++ " column " ++ Text.decimal pos.col ++
    " (char " ++ Text.decimal index ++ ")"

namespace Parser

/-- A text that is shorter than `t`. -/
abbrev Rest (t : Text) := { r : Text // r.length < t.length }

/-! ## White space -/

/-- The four characters that may stand between tokens. -/
def isSpace (c : Char) : Bool :=
  c = ' ' || c = '\t' || c = '\n' || c = '\r'

/-- The text without the white space at its start. -/
def skipSpace (t : Text) : Text :=
  t.dropWhile isSpace

theorem skipSpace_length_le (t : Text) : (skipSpace t).length ≤ t.length :=
  (List.dropWhile_sublist _).length_le

/-! ## Strings -/

/-- The value of a hexadecimal digit. -/
def hexValue (c : Char) : Option Nat :=
  if '0' ≤ c && c ≤ '9' then some (c.toNat - 48)
  else if 'a' ≤ c && c ≤ 'f' then some (c.toNat - 87)
  else if 'A' ≤ c && c ≤ 'F' then some (c.toNat - 55)
  else none

/-- The value of four hexadecimal digits, and what follows them, which must not be
nothing. -/
def code : (t : Text) → Option (Nat × Rest t)
  | a :: b :: c :: d :: e :: rest => do
    let a ← hexValue a
    let b ← hexValue b
    let c ← hexValue c
    let d ← hexValue d
    return (((a * 16 + b) * 16 + c) * 16 + d, ⟨e :: rest, by simp only [List.length_cons]; omega⟩)
  | _ => none

/-- The symbol with a given code. -/
def symbolOf (code : Nat) : Symbol :=
  if 0xD800 ≤ code && code < 0xE000 then .half code else .char (Char.ofNat code)

/-- The character of a surrogate pair. -/
def joined (high low : Nat) : Symbol :=
  .char (Char.ofNat (0x10000 + (high - 0xD800) * 0x400 + (low - 0xDC00)))

/-- The symbol behind `\u`, and what follows it. The first half of a pair takes the
second one along; a first half that is followed by an ill-formed escape is a
fault. -/
def escapedCode (t : Text) : Except Fault (Symbol × Rest t) :=
  match code t with
  | none => .error ⟨.codeInvalid, 'u' :: t⟩
  | some (high, ⟨rest, h⟩) =>
    if 0xD800 ≤ high && high < 0xDC00 then
      match rest with
      | '\\' :: 'u' :: more =>
        if more.length < 5 then .ok (symbolOf high, ⟨'\\' :: 'u' :: more, h⟩)
        else
          match code more with
          | none => .error ⟨.codeInvalid, 'u' :: more⟩
          | some (low, ⟨after, h'⟩) =>
            if 0xDC00 ≤ low && low < 0xE000 then
              .ok (joined high low, ⟨after, by simp only [List.length_cons] at h; omega⟩)
            else .ok (symbolOf high, ⟨'\\' :: 'u' :: more, h⟩)
      | rest => .ok (symbolOf high, ⟨rest, h⟩)
    else .ok (symbolOf high, ⟨rest, h⟩)

/-- The character that a letter behind a backslash stands for. -/
def escapedLetter (c : Char) : Option Char :=
  if c = '"' || c = '\\' || c = '/' then some c
  else if c = 'b' then some '\x08'
  else if c = 'f' then some '\x0c'
  else if c = 'n' then some '\n'
  else if c = 'r' then some '\r'
  else if c = 't' then some '\t'
  else none

/-- The symbols of a string up to its closing quote, and what follows it. `whole` is
the text from the opening quote on. -/
def symbols (whole : Text) (t : Text) : Except Fault (Str × Rest t) :=
  match t with
  | [] => .error ⟨.stringUnterminated, whole⟩
  | '"' :: rest => .ok ([], ⟨rest, by simp⟩)
  | ['\\'] => .error ⟨.stringUnterminated, whole⟩
  | '\\' :: 'u' :: more =>
    match escapedCode more with
    | .error f => .error f
    | .ok (symbol, ⟨rest, h⟩) =>
      match symbols whole rest with
      | .error f => .error f
      | .ok (s, ⟨after, h'⟩) =>
        .ok (symbol :: s, ⟨after, by simp only [List.length_cons]; omega⟩)
  | '\\' :: e :: rest =>
    match escapedLetter e with
    | none => .error ⟨.escapeInvalid, '\\' :: e :: rest⟩
    | some c =>
      match symbols whole rest with
      | .error f => .error f
      | .ok (s, ⟨after, h'⟩) =>
        .ok (.char c :: s, ⟨after, by simp only [List.length_cons]; omega⟩)
  | c :: rest =>
    if c.toNat < 0x20 then .error ⟨.controlCharacter, c :: rest⟩
    else
      match symbols whole rest with
      | .error f => .error f
      | .ok (s, ⟨after, h'⟩) =>
        .ok (.char c :: s, ⟨after, by simp only [List.length_cons]; omega⟩)
termination_by t.length
decreasing_by all_goals simp only [List.length_cons]; omega

/-! ## Numbers -/

/-- Whether a character is a decimal digit. -/
def isDecimal (c : Char) : Bool :=
  '0' ≤ c && c ≤ '9'

/-- The value of a list of decimal digits. -/
def decimalValue (digits : Text) : Nat :=
  digits.foldl (fun n c => n * 10 + (c.toNat - 48)) 0

/-- The digits of an integer: a zero stands alone. -/
def integerDigits : Text → Text
  | [] => []
  | c :: rest =>
    if c = '0' then ['0'] else if isDecimal c then c :: rest.takeWhile isDecimal else []

/-- A point and the digits behind it, if there are any. -/
def fractionPart : Text → Text
  | '.' :: rest => if (rest.takeWhile isDecimal).isEmpty then [] else '.' :: rest.takeWhile isDecimal
  | _ => []

/-- An exponent, if there is one with a digit. -/
def exponentPart : Text → Text
  | [] => []
  | c :: rest =>
    if c = 'e' || c = 'E' then
      let sign := rest.takeWhile fun s => s = '+' || s = '-'
      let digits := (rest.drop (min sign.length 1)).takeWhile isDecimal
      if digits.isEmpty then [] else c :: sign.take 1 ++ digits
    else []

/-- The value of an exponent. -/
def exponentValue (part : Text) : Int :=
  match part.drop 1 with
  | '-' :: digits => -(decimalValue digits : Int)
  | '+' :: digits => decimalValue digits
  | digits => decimalValue digits

/-- The number made of the given parts. Without fraction and exponent it is an
integer. -/
def numberOf (negative : Bool) (integer fraction exponent : Text) : Value :=
  if fraction.isEmpty && exponent.isEmpty then
    .integer (if negative then -(decimalValue integer : Int) else decimalValue integer)
  else
    let digits := decimalValue (integer ++ fraction.drop 1)
    .real (.ofDecimal negative digits (exponentValue exponent - (fraction.length - 1 : Nat)))

/-- The longest number at the start of a text, and the number of its characters. -/
def number (t : Text) : Except Cause (Value × Nat) :=
  let negative := t.head? = some '-'
  let unsigned := if negative then t.drop 1 else t
  let integer := integerDigits unsigned
  if integer.isEmpty then .error .valueExpected
  else
    let fraction := fractionPart (unsigned.drop integer.length)
    let exponent := exponentPart (unsigned.drop (integer.length + fraction.length))
    if fraction.isEmpty && exponent.isEmpty && integer.length > maxDigits then
      .error (.integerTooLong integer.length)
    else
      .ok (numberOf negative integer fraction exponent,
        (if negative then 1 else 0) + integer.length + fraction.length + exponent.length)

/-- The words that are values, and their values. -/
def words : List (Text × Value) :=
  [ ("null", .null), ("true", .bool true), ("false", .bool false), ("NaN", .real .nan),
    ("Infinity", .real (.infinite false)), ("-Infinity", .real (.infinite true)) ]

/-- The word or number at the start of a text, and what follows it. -/
def scalar (t : Text) : Except Fault (Value × Rest t) :=
  let found : Except Cause (Value × Nat) :=
    match words.find? fun (word, _) => word.isPrefixOf t with
    | some (word, v) => .ok (v, word.length)
    | none => number t
  match found with
  | .error cause => .error ⟨cause, t⟩
  | .ok (v, size) =>
    if h : (t.drop size).length < t.length then .ok (v, ⟨t.drop size, h⟩)
    else .error ⟨.valueExpected, t⟩

/-! ## Values -/

mutual

/-- The value at the start of a text, and what follows it. -/
def value (t : Text) : Except Fault (Value × Rest t) :=
  match t with
  | '"' :: rest =>
    match symbols ('"' :: rest) rest with
    | .error f => .error f
    | .ok (s, ⟨after, h⟩) => .ok (.string s, ⟨after, by simp only [List.length_cons]; omega⟩)
  | '[' :: rest =>
    have hs := skipSpace_length_le rest
    match hr : skipSpace rest with
    | ']' :: after =>
      .ok (.array [], ⟨after, by rw [hr] at hs; simp only [List.length_cons] at *; omega⟩)
    | _ =>
      match items (skipSpace rest) with
      | .error f => .error f
      | .ok (vs, ⟨after, h⟩) => .ok (.array vs, ⟨after, by simp only [List.length_cons]; omega⟩)
  | '\x7b' :: rest =>
    have hs := skipSpace_length_le rest
    match hr : skipSpace rest with
    | '\x7d' :: after =>
      .ok (.object [], ⟨after, by rw [hr] at hs; simp only [List.length_cons] at *; omega⟩)
    | _ =>
      match fields [] (skipSpace rest) with
      | .error f => .error f
      | .ok (vs, ⟨after, h⟩) => .ok (.object vs, ⟨after, by simp only [List.length_cons]; omega⟩)
  | t => scalar t
termination_by (t.length, 0)
decreasing_by
  all_goals
    apply Prod.Lex.left
    simp only [List.length_cons]
    omega

/-- The items of an array from the first one on, up to its closing bracket. -/
def items (t : Text) : Except Fault (List Value × Rest t) :=
  match value t with
  | .error f => .error f
  | .ok (v, ⟨rest, h⟩) =>
    have hs := skipSpace_length_le rest
    match hr : skipSpace rest with
    | ']' :: after => .ok ([v], ⟨after, by rw [hr] at hs; simp only [List.length_cons] at hs; omega⟩)
    | ',' :: more =>
      have hm := skipSpace_length_le more
      have hlt : (skipSpace more).length < t.length := by
        rw [hr] at hs; simp only [List.length_cons] at hs; omega
      match items (skipSpace more) with
      | .error f => .error f
      | .ok (vs, ⟨after, h'⟩) => .ok (v :: vs, ⟨after, by omega⟩)
    | other => .error ⟨.commaExpected, other⟩
termination_by (t.length, 1)
decreasing_by
  · exact Prod.Lex.right _ (by omega)
  · exact Prod.Lex.left _ _ hlt

/-- The fields of an object from the first one on, up to its closing brace, added to
the given ones. -/
def fields (given : List (Str × Value)) (t : Text) :
    Except Fault (List (Str × Value) × Rest t) :=
  match t with
  | '"' :: rest =>
    match symbols ('"' :: rest) rest with
    | .error f => .error f
    | .ok (key, ⟨behind, hk⟩) =>
      have hb := skipSpace_length_le behind
      match hc : skipSpace behind with
      | ':' :: more =>
        have hm := skipSpace_length_le more
        have hv : (skipSpace more).length < rest.length := by
          rw [hc] at hb; simp only [List.length_cons] at hb; omega
        match value (skipSpace more) with
        | .error f => .error f
        | .ok (v, ⟨after, ha⟩) =>
          have hs := skipSpace_length_le after
          match hr : skipSpace after with
          | '\x7d' :: final =>
            .ok (Value.insertField key v given, ⟨final, by
              rw [hr] at hs; simp only [List.length_cons] at *; omega⟩)
          | ',' :: next =>
            have hn := skipSpace_length_le next
            have hlt : (skipSpace next).length < rest.length := by
              rw [hr] at hs; simp only [List.length_cons] at hs; omega
            match fields (Value.insertField key v given) (skipSpace next) with
            | .error f => .error f
            | .ok (vs, ⟨final, hf⟩) =>
              .ok (vs, ⟨final, by simp only [List.length_cons]; omega⟩)
          | other => .error ⟨.commaExpected, other⟩
      | other => .error ⟨.colonExpected, other⟩
  | t => .error ⟨.nameExpected, t⟩
termination_by (t.length, 1)
decreasing_by
  all_goals
    apply Prod.Lex.left
    simp only [List.length_cons]
    omega

end

end Parser

/-- The value that a text is. -/
def parse (t : Text) : Except Fault Value :=
  if t.head? = some (Char.ofNat 0xFEFF) then .error ⟨.byteOrderMark, t⟩
  else
    match Parser.value (Parser.skipSpace t) with
    | .error f => .error f
    | .ok (v, rest) =>
      match Parser.skipSpace rest with
      | [] => .ok v
      | other => .error ⟨.extraData, other⟩

end CondAttrs.Json
