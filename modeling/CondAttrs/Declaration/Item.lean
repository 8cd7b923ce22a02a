import CondAttrs.Declaration.Shape

/-!
# Reading items

An item is its annotations, its visibility and a declaration. Where no kind can be
told, or where the tokens do not fit the kind, the item is not an error: its
tokens, up to the first semicolon or brace group behind the annotations, are
passed through with a warning.

A file may start with inner annotations, which belong to the file. They come first
and are an item of their own.

## Main definitions

* `Item.parse`: the item at the start of a token list, and the rest.
* `Item.parseAll`: the items of a file.

## Main statements

* `Item.parse_length_lt`: an item takes at least one token, so reading a file ends.
-/

namespace CondAttrs.Item

/-- The tokens up to the first semicolon or brace group, that one included, and the
rest. -/
def spanPassed : List Token → List Token × List Token
  | [] => ([], [])
  | t :: rest =>
    if t.isPunct ';' || t.isGroup .brace then ([t], rest)
    else (t :: (spanPassed rest).1, (spanPassed rest).2)

theorem spanPassed_append (tokens : List Token) :
    (spanPassed tokens).1 ++ (spanPassed tokens).2 = tokens := by
  induction tokens with
  | nil => rfl
  | cons t rest ih =>
    simp only [spanPassed]
    split <;> simp [ih]

/-- The item at the start of a token list, passed through for the given reason. -/
def passThrough (tokens : List Token) (d : Diagnostic) : Item × List Token :=
  let (forms, rest) := Form.readAll tokens
  let (passed, after) := spanPassed rest
  (.unsupported (forms.flatMap Form.tokens ++ passed) d, after)

/-- The warning about tokens of no known kind. -/
def unknownKind (pointer : Text) (next : Option Token) : Diagnostic :=
  ⟨.declarationUnsupported (next.map Token.label), pointer, (next.map Token.pos).getD .nowhere⟩

/-- The warning about tokens that do not fit their kind. At the end of the tokens it
is placed at the last one. -/
def misfit (pointer : Text) (tokens : List Token) (missing : Missing) : Diagnostic :=
  ⟨.declarationMalformed missing.expected (missing.found.map Token.label), pointer,
    ((missing.found.or tokens.getLast?).map Token.pos).getD .nowhere⟩

/-- The item at the start of a token list, and the rest. -/
def parse (s : Settings) (pointer : Text) (tokens : List Token) : Item × List Token :=
  let (attachments, behind) := Attachment.scan s pointer tokens
  let (visibility, body) := spanVisibility behind
  match Kind.select body with
  | none => passThrough tokens (unknownKind pointer body.head?)
  | some kind =>
    match Shape.take s pointer kind body with
    | .error missing => passThrough tokens (misfit pointer tokens missing)
    | .ok (shape, rest) => (.declared ⟨pointer, attachments, visibility, shape⟩, rest)

theorem passThrough_length_lt {tokens : List Token} (d : Diagnostic) (h : tokens ≠ []) :
    (passThrough tokens d).2.length < tokens.length := by
  have hr := congrArg List.length (Form.readAll_append tokens)
  have hp := congrArg List.length (spanPassed_append (Form.readAll tokens).2)
  have hpos := List.length_pos_iff.2 h
  simp only [passThrough]
  rw [List.length_append] at hr hp
  rcases hrest : (Form.readAll tokens).2 with _ | ⟨t, rest⟩
  · simpa [spanPassed] using hpos
  · have hne : 0 < (spanPassed (t :: rest)).1.length := by
      simp only [spanPassed]
      split <;> simp
    rw [hrest] at hr hp
    omega

/-- An item takes at least one token. -/
theorem parse_length_lt (s : Settings) (pointer : Text) {tokens : List Token} (h : tokens ≠ []) :
    (parse s pointer tokens).2.length < tokens.length := by
  simp only [parse]
  split
  · exact passThrough_length_lt _ h
  split
  · exact passThrough_length_lt _ h
  · rename_i ht
    have hc := Shape.take_consumes s pointer _ _ _ _ ht
    have hv := congrArg List.length
      (spanVisibility_append (Attachment.scan s pointer tokens).2)
    have hr := congrArg List.length (Form.readAll_append tokens)
    simp only [Attachment.scan, List.length_append] at *
    omega

/-- The pointer of the item with the given index. -/
def pointerOf (index : Nat) : Text :=
  Pointer.entry [] "items" index

/-- The items of a token list; the first one has the given index. -/
def parseFrom (s : Settings) (index : Nat) (tokens : List Token) : List Item :=
  match tokens with
  | [] => []
  | t :: rest =>
    let result := parse s (pointerOf index) (t :: rest)
    result.1 :: parseFrom s (index + 1) result.2
termination_by tokens.length
decreasing_by exact parse_length_lt s _ (List.cons_ne_nil t rest)

/-- The items of a file. -/
def parseAll (s : Settings) (tokens : List Token) : List Item :=
  let inner := (Form.readAll tokens).1.takeWhile Form.isInner
  if inner.isEmpty then parseFrom s 0 tokens
  else
    let rest := tokens.drop (inner.flatMap Form.tokens).length
    .enclosing (pointerOf 0) (Attachment.ofForms s (pointerOf 0) inner) :: parseFrom s 1 rest

end CondAttrs.Item
