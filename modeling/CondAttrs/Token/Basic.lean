import CondAttrs.Position
import CondAttrs.Token.Delimiter

/-!
# Token trees

The tree of tokens of a source text. A token keeps the trivia in front of it
(white space and ordinary comments) and its position; a group also keeps the
trivia in front of its closing bracket. Nothing of the text is dropped, so
rendering the tokens of a text, with the trivia behind the last one, gives the
text back.

Documentation comments are tokens and not trivia, because they are annotations.
A doc comment is stored by its marker and its value; its text is put together
from the two.

## Main definitions

* `Atom` and `Token`: the tokens, and the trees.
* `Token.render`, `Token.renderAll`: the text of a tree and of a list of trees.
* `Token.mentions`: whether an identifier occurs at any depth.
-/

namespace CondAttrs

/-- The four ways to open a documentation comment. -/
inductive DocMarker where
  /-- The marker `///`, for what follows. -/
  | outerLine
  /-- The marker `//!`, for what encloses. -/
  | innerLine
  /-- The marker `/**`, for what follows. -/
  | outerBlock
  /-- The marker `/*!`, for what encloses. -/
  | innerBlock
deriving DecidableEq

namespace DocMarker

/-- The three characters of the marker. -/
def opening : DocMarker → Text
  | outerLine => ['/', '/', '/']
  | innerLine => ['/', '/', '!']
  | outerBlock => ['/', '*', '*']
  | innerBlock => ['/', '*', '!']

/-- What ends the comment: nothing for a line, which ends with its line. -/
def closing : DocMarker → Text
  | outerLine => []
  | innerLine => []
  | outerBlock => ['*', '/']
  | innerBlock => ['*', '/']

/-- Whether the comment documents the thing that encloses it. -/
def isInner : DocMarker → Bool
  | outerLine => false
  | innerLine => true
  | outerBlock => false
  | innerBlock => true

/-- Whether the comment ends with its line. -/
def isLine : DocMarker → Bool
  | outerLine => true
  | innerLine => true
  | outerBlock => false
  | innerBlock => false

end DocMarker

/-- A token that is no group, without its trivia. -/
inductive Atom where
  /-- An identifier or keyword, raw identifiers with their mark. -/
  | ident (name : Text)
  /-- A lifetime, with its quote. -/
  | lifetime (text : Text)
  /-- A literal, with its quotes, type letter and suffix. -/
  | literal (text : Text)
  /-- One punctuation character; `joint` tells that the next character of the
  text is punctuation too. -/
  | punct (char : Char) (joint : Bool)
  /-- A documentation comment. -/
  | doc (marker : DocMarker) (value : Text)
deriving DecidableEq

/-- The characters of a token. -/
def Atom.text : Atom → Text
  | ident name => name
  | lifetime text => text
  | literal text => text
  | punct char _ => [char]
  | doc marker value => marker.opening ++ value ++ marker.closing

/-- A token with what is between it and the token before, or a bracketed group
of tokens. -/
inductive Token where
  /-- A single token. -/
  | atom (leading : Text) (pos : Position) (atom : Atom)
  /-- A group; `closeLeading` is the trivia in front of the closing bracket. -/
  | group (leading : Text) (pos : Position) (delimiter : Delimiter) (children : List Token)
      (closeLeading : Text)

/-- The tokens of a text, and the trivia behind the last of them. -/
structure TokenStream where
  /-- The token trees in order. -/
  tokens : List Token
  /-- The trivia at the end. -/
  trailing : Text

namespace Token

/-! ## Parts -/

/-- The trivia in front. -/
def leading : Token → Text
  | atom leading _ _ => leading
  | group leading _ _ _ _ => leading

/-- Where the first character behind the trivia stands. -/
def pos : Token → Position
  | atom _ pos _ => pos
  | group _ pos _ _ _ => pos

/-- The tokens inside a group; a single token has none. -/
def children : Token → List Token
  | atom _ _ _ => []
  | group _ _ _ children _ => children

/-- The text that names a token in a message: a group is named by its opening
bracket. -/
def label : Token → Text
  | atom _ _ a => a.text
  | group _ _ delimiter _ _ => [delimiter.opening]

/-! ## Kinds -/

/-- The name, if the token is an identifier. -/
def ident? : Token → Option Text
  | atom _ _ (.ident name) => some name
  | _ => none

/-- Whether the token is an identifier. -/
def isIdent (t : Token) : Bool :=
  t.ident?.isSome

/-- Whether the token is the given word. -/
def isWord (word : Text) (t : Token) : Bool :=
  t.ident? == some word

/-- Whether the token is a literal. -/
def isLiteral : Token → Bool
  | atom _ _ (.literal _) => true
  | _ => false

/-- Whether the token is the punctuation character `c`. -/
def isPunct (c : Char) : Token → Bool
  | atom _ _ (.punct char _) => char = c
  | _ => false

/-- Whether the token is the punctuation character `c`, with punctuation right
behind it. -/
def isJoint (c : Char) : Token → Bool
  | atom _ _ (.punct char joint) => char = c && joint
  | _ => false

/-- Whether the token is a group between the given brackets. -/
def isGroup (d : Delimiter) : Token → Bool
  | group _ _ delimiter _ _ => delimiter = d
  | _ => false

/-- Whether the token is a documentation comment. -/
def isDoc : Token → Bool
  | atom _ _ (.doc _ _) => true
  | _ => false

/-! ## Rendering -/

mutual

/-- The text of a token tree, its trivia included. -/
def render : Token → Text
  | atom leading _ a => leading ++ a.text
  | group leading _ delimiter children closeLeading =>
    leading ++ delimiter.opening :: (renderAll children ++ (closeLeading ++ [delimiter.closing]))

/-- The text of a list of token trees. -/
def renderAll : List Token → Text
  | [] => []
  | t :: rest => render t ++ renderAll rest

end

/-! ## Search -/

mutual

/-- Whether the identifier `name` is the token or occurs inside it. -/
def mentions (name : Text) : Token → Bool
  | atom _ _ a => a = .ident name
  | group _ _ _ children _ => anyMentions name children

/-- Whether the identifier `name` occurs anywhere in a list of trees. -/
def anyMentions (name : Text) : List Token → Bool
  | [] => false
  | t :: rest => mentions name t || anyMentions name rest

end

/-! ## Size -/

mutual

/-- The number of tokens in a tree, a group counting one more than what it
holds. -/
def size : Token → Nat
  | atom _ _ _ => 1
  | group _ _ _ children _ => sizeAll children + 1

/-- The number of tokens in a list of trees. -/
def sizeAll : List Token → Nat
  | [] => 0
  | t :: rest => size t + sizeAll rest

end

theorem size_pos (t : Token) : 0 < t.size := by
  cases t <;> simp [size]

theorem sizeAll_append (first second : List Token) :
    sizeAll (first ++ second) = sizeAll first + sizeAll second := by
  induction first with
  | nil => simp [sizeAll]
  | cons t rest ih => simp [sizeAll, ih, Nat.add_assoc]

theorem sizeAll_children_lt (t : Token) : sizeAll t.children < t.size := by
  cases t <;> simp [children, size, sizeAll]

theorem renderAll_append (first second : List Token) :
    renderAll (first ++ second) = renderAll first ++ renderAll second := by
  induction first with
  | nil => simp [renderAll]
  | cons t rest ih => simp [renderAll, ih]

end Token

/-- The text of a stream. -/
def TokenStream.render (s : TokenStream) : Text :=
  Token.renderAll s.tokens ++ s.trailing

end CondAttrs
