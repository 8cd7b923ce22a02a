import CondAttrs.Attribute.Path
import CondAttrs.Text.Blank
import CondAttrs.Text.Quoted

/-!
# The written forms of annotations

An annotation is written as a documentation comment, as an attribute `#[...]` or
`#![...]`, or, inside the arguments of a directive only, as a bare attribute
without marks. A form is what stands in the source; whether it is a directive,
and whether that directive is well formed, is judged later.

## Main definitions

* `Form.read`, `Form.readAll`: the annotations at the start of a token list.
* `Form.entries`: the division of a directive's arguments into forms.
* `Form.content`, `Form.path`, `Form.arguments`: what an attribute says.

## Main statements

* `Form.read_append`, `Form.readAll_append`: no token is lost or invented.
* `Form.sizeAll_entries_le`: the entries are made of the given tokens, which is why
  reading nested directives ends.
-/

namespace CondAttrs

/-- An annotation as it is written. -/
inductive Form where
  /-- A documentation comment. -/
  | doc (leading : Text) (pos : Position) (marker : DocMarker) (value : Text)
  /-- An attribute: the hash, for an inner attribute the bang, and the brackets. -/
  | marked (hash : Token) (bang : Option Token) (bracket : Token)
  /-- A bare attribute among the arguments of a directive. -/
  | bare (first : Token) (rest : List Token)

namespace Form

/-- The tokens of a form. -/
def tokens : Form → List Token
  | doc leading pos marker value => [.atom leading pos (.doc marker value)]
  | marked hash bang bracket => hash :: (bang.toList ++ [bracket])
  | bare first rest => first :: rest

/-- The trivia in front. -/
def leading : Form → Text
  | doc leading _ _ _ => leading
  | marked hash _ _ => hash.leading
  | bare first _ => first.leading

/-- Where the form starts. -/
def pos : Form → Position
  | doc _ pos _ _ => pos
  | marked hash _ _ => hash.pos
  | bare first _ => first.pos

/-- Whether the form annotates what encloses it. -/
def isInner : Form → Bool
  | doc _ _ marker _ => marker.isInner
  | marked _ bang _ => bang.isSome
  | bare _ _ => false

/-- Whether the form is a documentation comment. -/
def isDoc : Form → Bool
  | doc _ _ _ _ => true
  | _ => false

/-- Whether the form is bare. -/
def isBare : Form → Bool
  | bare _ _ => true
  | _ => false

/-- The tokens that hold path and arguments. -/
def content : Form → List Token
  | doc _ _ _ _ => []
  | marked _ _ bracket => bracket.children
  | bare first rest => first :: rest

/-- The path of the attribute. -/
def path (f : Form) : List Token :=
  (AttributePath.split f.content).1

/-- What follows the path. -/
def arguments (f : Form) : List Token :=
  (AttributePath.split f.content).2

/-- The name by which directives are recognised. -/
def name : Form → Text
  | doc _ _ _ _ => "doc"
  | f => AttributePath.name f.path

/-- The path as text. -/
def pathText (f : Form) : Text :=
  Text.strip (Token.renderAll f.path)

/-- The form as text, without the blanks around it. -/
def text (f : Form) : Text :=
  Text.strip (Token.renderAll f.tokens)

/-- What stands between the brackets when the annotation is written as an
attribute. -/
def contentText : Form → Text
  | doc _ _ _ value => "doc = " ++ Text.Quoted.encode value
  | f => Text.strip (Token.renderAll f.content)

/-- The number of tokens of a form. -/
def size (f : Form) : Nat :=
  Token.sizeAll f.tokens

/-- The number of tokens of all forms of a list. -/
def sizeAll : List Form → Nat
  | [] => 0
  | f :: rest => f.size + sizeAll rest

theorem size_pos (f : Form) : 0 < f.size := by
  cases f with
  | doc => simp [size, tokens, Token.sizeAll, Token.size]
  | marked hash bang bracket =>
    have := hash.size_pos
    simp only [size, tokens, Token.sizeAll]
    omega
  | bare first rest =>
    have := first.size_pos
    simp only [size, tokens, Token.sizeAll]
    omega

/-- What an attribute says is part of what is written. -/
theorem sizeAll_content_le (f : Form) : Token.sizeAll f.content ≤ f.size := by
  cases f with
  | doc => simp [content, Token.sizeAll]
  | marked hash bang bracket =>
    have := bracket.sizeAll_children_lt
    simp only [content, size, tokens, Token.sizeAll, Token.sizeAll_append]
    omega
  | bare first rest => simp [content, size, tokens]

theorem sizeAll_arguments_le (f : Form) : Token.sizeAll f.arguments ≤ f.size := by
  have h := f.sizeAll_content_le
  rw [← AttributePath.split_append f.content, Token.sizeAll_append] at h
  unfold arguments
  omega

/-! ## Reading -/

/-- The annotation at the start of a token list, and the rest. -/
def read : List Token → Option (Form × List Token)
  | .atom leading pos (.doc marker value) :: rest => some (.doc leading pos marker value, rest)
  | hash :: second :: rest =>
    if !hash.isPunct '#' then none
    else if second.isGroup .bracket then some (.marked hash none second, rest)
    else if !second.isPunct '!' then none
    else
      match rest with
      | third :: rest =>
        if third.isGroup .bracket then some (.marked hash (some second) third, rest) else none
      | [] => none
  | _ => none

/-- The form and the rest make up the tokens. -/
theorem read_append {tokens rest : List Token} {f : Form} (h : read tokens = some (f, rest)) :
    f.tokens ++ rest = tokens := by
  unfold read at h
  split at h
  · simp only [Option.some.injEq, Prod.mk.injEq] at h
    obtain ⟨rfl, rfl⟩ := h
    rfl
  · split at h
    · cases h
    split at h
    · simp only [Option.some.injEq, Prod.mk.injEq] at h
      obtain ⟨rfl, rfl⟩ := h
      rfl
    split at h
    · cases h
    split at h
    · split at h
      · simp only [Option.some.injEq, Prod.mk.injEq] at h
        obtain ⟨rfl, rfl⟩ := h
        rfl
      · cases h
    · cases h
  · cases h

theorem tokens_ne_nil (f : Form) : f.tokens ≠ [] := by
  cases f <;> simp [tokens]

theorem read_length_lt {tokens rest : List Token} {f : Form} (h : read tokens = some (f, rest)) :
    rest.length < tokens.length := by
  have := List.length_pos_iff.2 f.tokens_ne_nil
  rw [← read_append h, List.length_append]
  omega

/-- All annotations at the start of a token list, and the rest. -/
def readAll (tokens : List Token) : List Form × List Token :=
  match _h : read tokens with
  | none => ([], tokens)
  | some (f, rest) => (f :: (readAll rest).1, (readAll rest).2)
termination_by tokens.length
decreasing_by all_goals exact read_length_lt _h

/-- The forms and the rest make up the tokens. -/
theorem readAll_append (tokens : List Token) :
    (readAll tokens).1.flatMap Form.tokens ++ (readAll tokens).2 = tokens := by
  fun_induction readAll tokens with
  | case1 => simp
  | case2 tokens f rest h ih =>
    rw [List.flatMap_cons, List.append_assoc, ih, read_append h]

/-! ## The entries of a directive -/

/-- Whether a token ends a bare attribute: a comma does, and so does anything
that starts another annotation. -/
def endsBare (t : Token) : Bool :=
  t.isPunct ',' || t.isPunct '#' || t.isDoc

/-- The forms among the arguments of a directive, in order. Commas separate and
may be repeated; where no annotation can be read a bare attribute runs to the
next token that ends it. -/
def entries (tokens : List Token) : List Form :=
  match tokens with
  | [] => []
  | first :: rest =>
    if first.isPunct ',' then entries rest
    else
      match _h : read (first :: rest) with
      | some (f, after) => f :: entries after
      | none =>
        .bare first (rest.takeWhile (!endsBare ·)) :: entries (rest.dropWhile (!endsBare ·))
termination_by tokens.length
decreasing_by
  · simp
  · exact read_length_lt _h
  · exact Nat.lt_succ_of_le (List.dropWhile_sublist _).length_le

/-- The entries are made of the given tokens. -/
theorem sizeAll_entries_le (tokens : List Token) : sizeAll (entries tokens) ≤ Token.sizeAll tokens := by
  fun_induction entries tokens with
  | case1 => simp [sizeAll]
  | case2 first rest _ ih =>
    simp only [Token.sizeAll]
    omega
  | case3 first rest _ f after h ih =>
    rw [← read_append h, Token.sizeAll_append]
    simp only [sizeAll, size]
    omega
  | case4 first rest _ h ih =>
    have hs := congrArg Token.sizeAll
      (List.takeWhile_append_dropWhile (p := fun t => !endsBare t) (l := rest))
    rw [Token.sizeAll_append] at hs
    simp only [sizeAll, size, tokens, Token.sizeAll]
    omega

end Form

end CondAttrs
