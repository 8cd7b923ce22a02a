import CondAttrs.Attribute.Lower
import CondAttrs.Declaration.Basic

/-!
# Putting items together again

The text of an item, given one text for every attachment point. `splice` takes the
texts from a list and refuses a list of the wrong length; `lower` fills every
slot with the lowered annotations of its point.
-/

namespace CondAttrs

/-- What is wrong with a list of texts for the slots of an item. -/
inductive SpliceFault where
  /-- There are fewer texts than slots. -/
  | short
  /-- There are more texts than slots. -/
  | excess
deriving DecidableEq

/-- The name of the fault. -/
def SpliceFault.message : SpliceFault → Text
  | short => "REWRITTEN_LISTS_SHORT"
  | excess => "REWRITTEN_LISTS_EXCESS"

/-- The text of some pieces, the slots filled in order with the given texts. -/
def Piece.splice : List Piece → List Text → Except SpliceFault Text
  | [], [] => .ok []
  | [], _ :: _ => .error .excess
  | fixed text :: rest, texts => (splice rest texts).map (text ++ ·)
  | slot _ :: _, [] => .error .short
  | slot _ :: rest, text :: texts => (splice rest texts).map (text ++ ·)

/-- The text of a piece in the output. -/
def Piece.lower (s : Settings) : Piece → Text
  | fixed text => text
  | slot point => Attachment.lowerAll s point.attachments

namespace Item

/-- The text of an item, the slots filled in order with the given texts. -/
def splice (i : Item) (texts : List Text) : Except SpliceFault Text :=
  Piece.splice i.pieces texts

/-- The text of an item in the output. -/
def lower (s : Settings) (i : Item) : Text :=
  i.pieces.flatMap (Piece.lower s)

end Item

end CondAttrs
