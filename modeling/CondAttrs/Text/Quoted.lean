import CondAttrs.Text.Basic

/-!
# Quoted literals

The text of a string literal that denotes a given text. Five characters cannot
stand for themselves between double quotes in one line: the quote, the backslash,
the line feed, the carriage return and the tab. Each is written as a backslash
and a letter; every other character is written as it is.
-/

namespace CondAttrs.Text.Quoted

/-- One character between the quotes. -/
def encodeChar : Char → Text
  | '\\' => ['\\', '\\']
  | '"' => ['\\', '"']
  | '\n' => ['\\', 'n']
  | '\r' => ['\\', 'r']
  | '\t' => ['\\', 't']
  | c => [c]

/-- The characters between the quotes. -/
def encodeBody (t : Text) : Text :=
  t.flatMap encodeChar

/-- The literal that denotes `t`. -/
def encode (t : Text) : Text :=
  '"' :: encodeBody t ++ ['"']

/-- The character that a letter after a backslash stands for. -/
def unescape : Char → Option Char
  | '\\' => some '\\'
  | '"' => some '"'
  | 'n' => some '\n'
  | 'r' => some '\r'
  | 't' => some '\t'
  | _ => none

/-- Undoes the escapes between the quotes. Refuses an escape that is not one of
the five, and a quote or backslash that stands alone. -/
def decodeBody : Text → Option Text
  | [] => some []
  | '\\' :: e :: rest => do
    let c ← unescape e
    let t ← decodeBody rest
    return c :: t
  | c :: rest =>
    if c = '"' || c = '\\' then none else (decodeBody rest).map (c :: ·)

/-- A decoded body is the body that was encoded. -/
theorem decodeBody_encodeBody (t : Text) : decodeBody (encodeBody t) = some t := by
  induction t with
  | nil => rfl
  | cons c rest ih =>
    rw [show encodeBody (c :: rest) = encodeChar c ++ encodeBody rest from rfl]
    unfold encodeChar
    split <;> simp_all [decodeBody, unescape]

end CondAttrs.Text.Quoted
