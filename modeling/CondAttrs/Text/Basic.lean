/-!
# Text as lists of characters

Every part of the library reads and writes `Text`, a plain list of characters.
A lexer that peels characters off a list, a renderer that appends them and a
position that counts them then talk about one and the same object, and the
statements that join them (`rendering what was read gives the text back`) are
statements about `++`.

The operations here are the ones that no single format owns: decimal numerals,
joining with a separator, the division of a text into lines, the search for a
fixed word, and the size in bytes.
-/

namespace CondAttrs

/-- A text is the list of its characters. -/
abbrev Text := List Char

/-- A string literal stands for the list of its characters. -/
instance : Coe String Text := ⟨String.toList⟩

namespace Text

/-! ## Numerals -/

/-- The decimal digit of value `n % 10`. -/
def digit (n : Nat) : Char :=
  Char.ofNat (48 + n % 10)

/-- The decimal numeral of a natural number, without leading zeros. -/
def decimal (n : Nat) : Text :=
  if n < 10 then [digit n] else decimal (n / 10) ++ [digit n]

/-- The decimal numeral of an integer; a minus sign marks the negative ones. -/
def integer : Int → Text
  | .ofNat n => decimal n
  | .negSucc n => '-' :: decimal (n + 1)

/-- The hexadecimal digit, in lower case, of value `n % 16`. -/
def hexDigit (n : Nat) : Char :=
  if n % 16 < 10 then Char.ofNat (48 + n % 16) else Char.ofNat (87 + n % 16)

/-- The last `width` hexadecimal digits of `n`, in lower case. -/
def hex : (width : Nat) → (n : Nat) → Text
  | 0, _ => []
  | width + 1, n => hex width (n / 16) ++ [hexDigit n]

/-! ## Joining -/

/-- The texts of a list in order, with `separator` between neighbours. -/
def join (separator : Text) : List Text → Text
  | [] => []
  | [t] => t
  | t :: u :: rest => t ++ separator ++ join separator (u :: rest)

/-! ## Lines -/

/-- The characters that end a line. A carriage return followed by a line feed
ends one line, not two. -/
def isLineBreak (c : Char) : Bool :=
  c = '\n' || c = '\r' || c = '\x0b' || c = '\x0c' || c = '\x1c' || c = '\x1d' ||
    c = '\x1e' || c = '\u0085' || c = '\u2028' || c = '\u2029'

/-- The lines of a text, the current one being gathered in reverse. A text that
ends with a line break has no further, empty line after it. -/
def linesFrom : (current : Text) → Text → List Text
  | [], [] => []
  | current@(_ :: _), [] => [current.reverse]
  | current, '\r' :: '\n' :: rest => current.reverse :: linesFrom [] rest
  | current, c :: rest =>
    if isLineBreak c then current.reverse :: linesFrom [] rest
    else linesFrom (c :: current) rest

/-- The lines of a text, without their line breaks. -/
def lines (t : Text) : List Text :=
  linesFrom [] t

/-- Every line end becomes one line feed, as text files are read. -/
def unifyNewlines : Text → Text
  | [] => []
  | '\r' :: '\n' :: rest => '\n' :: unifyNewlines rest
  | c :: rest => (if c = '\r' then '\n' else c) :: unifyNewlines rest

/-! ## Search -/

/-- What stands before the first occurrence of `word`, and what follows it. -/
def splitAtWord (word : Text) : Text → Option (Text × Text)
  | [] => if word.isEmpty then some ([], []) else none
  | c :: rest =>
    if word.isPrefixOf (c :: rest) then some ([], (c :: rest).drop word.length)
    else (splitAtWord word rest).map fun (before, after) => (c :: before, after)

/-- The word and its two sides make up the text. -/
theorem splitAtWord_append {word t before after : Text}
    (h : splitAtWord word t = some (before, after)) : before ++ word ++ after = t := by
  induction t generalizing before with
  | nil =>
    cases word with
    | nil => simp_all [splitAtWord]
    | cons => simp [splitAtWord] at h
  | cons c rest ih =>
    simp only [splitAtWord] at h
    split at h
    · rename_i hp
      obtain ⟨tail, htail⟩ := List.isPrefixOf_iff_prefix.1 hp
      simp only [Option.some.injEq, Prod.mk.injEq] at h
      obtain ⟨rfl, rfl⟩ := h
      rw [← htail]; simp
    · simp only [Option.map_eq_some_iff] at h
      obtain ⟨⟨b, a⟩, hs, he⟩ := h
      simp only [Prod.mk.injEq] at he
      obtain ⟨rfl, rfl⟩ := he
      simpa using ih hs

/-- The number of bytes that a text takes in a file or a file name. -/
def byteSize (t : Text) : Nat :=
  t.foldl (fun n c => n + c.utf8Size) 0

end Text

end CondAttrs
