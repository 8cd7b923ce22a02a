import CondAttrs.Attribute.Basic

/-!
# Declarations

A source file is a list of items. An item is a declaration of one of eleven
shapes, the inner annotations at the head of the file, or a stretch of tokens that
is passed through. A declaration keeps all of its tokens, divided into the parts
of its shape, and knows its *attachment points*: the places where annotations can
stand. These are the declaration itself, the fields of a structure, the variants
of an enumeration with their fields, and the members of a trait.

## Main definitions

* `Point`: an attachment point and its annotations.
* `Shape`: the parts of a declaration, by kind.
* `Declaration`, `Item`: what a source file consists of.
* `Item.pieces`: an item as fixed texts with a slot for every attachment point.
-/

namespace CondAttrs

/-- The kinds of declaration that are taken apart. -/
inductive Kind where
  | constant
  | static
  | function
  | enumeration
  | record
  | trait
  | traitAlias
  | typeAlias
  | use
  | externCrate
  | invocation
deriving DecidableEq

/-- The name of a kind of declaration. -/
def Kind.label : Kind → Text
  | constant => "const"
  | static => "static"
  | function => "fn"
  | enumeration => "enum"
  | record => "struct"
  | trait => "trait"
  | traitAlias => "trait alias"
  | typeAlias => "type"
  | use => "use"
  | externCrate => "extern crate"
  | invocation => "macro invocation"

/-! ## Attachment points -/

/-- The kind of thing that annotations are attached to. -/
inductive Site where
  /-- A declaration. -/
  | declaration (kind : Kind)
  /-- The file itself. -/
  | enclosing
  /-- A field of a structure or variant. -/
  | field
  /-- A variant of an enumeration. -/
  | variant
  /-- A member of a trait. -/
  | member
deriving DecidableEq

/-- The name of a kind of site. -/
def Site.label : Site → Text
  | declaration kind => kind.label
  | enclosing => "inner attributes"
  | field => "field"
  | variant => "variant"
  | member => "member"

/-- A place with annotations. -/
structure Point where
  /-- What the annotations are attached to. -/
  site : Site
  /-- The name of that thing; empty if it has none. -/
  name : Text
  /-- The place in the structure of the source. -/
  pointer : Text
  /-- The annotations in order. -/
  attachments : List Attachment

/-! ## Members -/

/-- A field or a trait member: its attachment point and its tokens. -/
structure Member where
  /-- Where its annotations are attached. -/
  point : Point
  /-- Its tokens behind the annotations, with the separator. -/
  body : List Token

/-- Members between brackets. -/
structure Members (α : Type) where
  /-- The trivia in front of the opening bracket. -/
  leading : Text
  /-- The brackets. -/
  delimiter : Delimiter
  /-- The members in order. -/
  members : List α
  /-- The trivia in front of the closing bracket. -/
  closeLeading : Text

/-- A variant of an enumeration. -/
structure Variant where
  /-- Where its annotations are attached. -/
  point : Point
  /-- Its tokens up to its name. -/
  head : List Token
  /-- Its fields. -/
  fields : Option (Members Member)
  /-- What follows, with the separator. -/
  tail : List Token

/-! ## Shapes -/

/-- What follows the head of a structure. -/
inductive RecordBody where
  /-- Fields by position; a where clause stands behind them. -/
  | tuple (fields : Members Member) (whereClause : List Token) (terminator : Token)
  /-- Fields by name; a where clause stands in front of them. -/
  | named (whereClause : List Token) (fields : Members Member)
  /-- No fields. -/
  | unit (whereClause : List Token) (terminator : Token)

/-- The parts of a declaration behind its annotations and visibility. -/
inductive Shape where
  | constant (keyword name : Token) (type value : List Token) (terminator : Token)
  | static (keyword : Token) (mutability : Option Token) (name : Token)
      (type value : List Token) (terminator : Token)
  | function (qualifiers : List Token) (keyword name : Token) (generics : List Token)
      (params : Token) (result whereClause : List Token) (body : Token)
  | enumeration (keyword name : Token) (generics whereClause : List Token)
      (variants : Members Variant)
  | record (keyword name : Token) (generics : List Token) (body : RecordBody)
  | trait (qualifiers : List Token) (keyword name : Token)
      (generics bounds whereClause : List Token) (members : Members Member)
  | traitAlias (keyword name : Token) (generics bounds whereClause : List Token)
      (terminator : Token)
  | typeAlias (keyword name : Token) (generics rest : List Token) (terminator : Token)
  | use (keyword : Token) (tree : List Token) (terminator : Token)
  | externCrate (keyword crate name : Token) (localName : List Token) (terminator : Token)
  | invocation (path : List Token) (bang : Token) (name : Option Token) (body : Token)
      (terminator : Option Token)

namespace Shape

/-- The kind of declaration. -/
def kind : Shape → Kind
  | constant .. => .constant
  | static .. => .static
  | function .. => .function
  | enumeration .. => .enumeration
  | record .. => .record
  | trait .. => .trait
  | traitAlias .. => .traitAlias
  | typeAlias .. => .typeAlias
  | use .. => .use
  | externCrate .. => .externCrate
  | invocation .. => .invocation

/-- The name of the declared thing. An import declares none; an invocation is
named by its path. -/
def name : Shape → Text
  | constant _ name _ _ _ => name.label
  | static _ _ name _ _ _ => name.label
  | function _ _ name _ _ _ _ _ => name.label
  | enumeration _ name _ _ _ => name.label
  | record _ name _ _ => name.label
  | trait _ _ name _ _ _ _ => name.label
  | traitAlias _ name _ _ _ _ => name.label
  | typeAlias _ name _ _ _ => name.label
  | use _ _ _ => []
  | externCrate _ _ name _ _ => name.label
  | invocation path _ _ _ _ => Text.strip (Token.renderAll path) ++ "!"

end Shape

/-- A declaration of a known shape. -/
structure Declaration where
  /-- The place in the structure of the source. -/
  pointer : Text
  /-- The annotations in front. -/
  attachments : List Attachment
  /-- The visibility. -/
  visibility : List Token
  /-- The parts that depend on the kind. -/
  shape : Shape

/-- The attachment point of the declaration itself. -/
def Declaration.point (d : Declaration) : Point :=
  ⟨.declaration d.shape.kind, d.shape.name, d.pointer, d.attachments⟩

/-- What a source file consists of. -/
inductive Item where
  /-- A declaration of a known shape. -/
  | declared (declaration : Declaration)
  /-- Inner annotations at the head of a file, which belong to the file. -/
  | enclosing (pointer : Text) (attachments : List Attachment)
  /-- Tokens that are passed through, and why. -/
  | unsupported (tokens : List Token) (diagnostic : Diagnostic)

/-! ## Pieces -/

/-- A part of an item: fixed text, or the place of the annotations of a point. -/
inductive Piece where
  /-- Text that stays as it is. -/
  | fixed (text : Text)
  /-- The annotations of a point. -/
  | slot (point : Point)

/-- The point of a slot. -/
def Piece.point? : Piece → Option Point
  | fixed _ => none
  | slot point => some point

/-- The fixed text of some tokens. -/
def Piece.ofTokens (tokens : List Token) : Piece :=
  .fixed (Token.renderAll tokens)

/-- A member's annotations and tokens. -/
def Member.pieces (m : Member) : List Piece :=
  [.slot m.point, .ofTokens m.body]

/-- Members between their brackets. -/
def Members.pieces {α : Type} (of : α → List Piece) (m : Members α) : List Piece :=
  .fixed (m.leading ++ [m.delimiter.opening]) ::
    (m.members.flatMap of ++ [.fixed (m.closeLeading ++ [m.delimiter.closing])])

/-- A variant's annotations, head, fields and tail. -/
def Variant.pieces (v : Variant) : List Piece :=
  [.slot v.point, .ofTokens v.head] ++
    (v.fields.elim [] (Members.pieces Member.pieces) ++ [.ofTokens v.tail])

/-- The parts of a structure behind its head, in order. -/
def RecordBody.pieces : RecordBody → List Piece
  | tuple fields whereClause terminator =>
    fields.pieces Member.pieces ++ [.ofTokens whereClause, .ofTokens [terminator]]
  | named whereClause fields => .ofTokens whereClause :: fields.pieces Member.pieces
  | unit whereClause terminator => [.ofTokens whereClause, .ofTokens [terminator]]

/-- The parts of a shape, in order. -/
def Shape.pieces : Shape → List Piece
  | constant keyword name type value terminator =>
    [.ofTokens ([keyword, name] ++ type ++ value ++ [terminator])]
  | static keyword mutability name type value terminator =>
    [.ofTokens (keyword :: mutability.toList ++ [name] ++ type ++ value ++ [terminator])]
  | function qualifiers keyword name generics params result whereClause body =>
    [.ofTokens (qualifiers ++ [keyword, name] ++ generics ++ [params] ++ result ++ whereClause ++
      [body])]
  | enumeration keyword name generics whereClause variants =>
    .ofTokens ([keyword, name] ++ generics ++ whereClause) :: variants.pieces Variant.pieces
  | record keyword name generics body => .ofTokens ([keyword, name] ++ generics) :: body.pieces
  | trait qualifiers keyword name generics bounds whereClause members =>
    .ofTokens (qualifiers ++ [keyword, name] ++ generics ++ bounds ++ whereClause) ::
      members.pieces Member.pieces
  | traitAlias keyword name generics bounds whereClause terminator =>
    [.ofTokens ([keyword, name] ++ generics ++ bounds ++ whereClause ++ [terminator])]
  | typeAlias keyword name generics rest terminator =>
    [.ofTokens ([keyword, name] ++ generics ++ rest ++ [terminator])]
  | use keyword tree terminator => [.ofTokens (keyword :: tree ++ [terminator])]
  | externCrate keyword crate name localName terminator =>
    [.ofTokens ([keyword, crate, name] ++ localName ++ [terminator])]
  | invocation path bang name body terminator =>
    [.ofTokens (path ++ [bang] ++ name.toList ++ [body] ++ terminator.toList)]

/-- The parts of a declaration, in order. -/
def Declaration.pieces (d : Declaration) : List Piece :=
  .slot d.point :: .ofTokens d.visibility :: d.shape.pieces

namespace Item

/-- The parts of an item, in order. -/
def pieces : Item → List Piece
  | declared d => d.pieces
  | enclosing pointer attachments => [.slot ⟨.enclosing, [], pointer, attachments⟩]
  | unsupported tokens _ => [.ofTokens tokens]

/-- The attachment points of an item, in order. -/
def points (i : Item) : List Point :=
  i.pieces.filterMap Piece.point?

end Item

end CondAttrs
