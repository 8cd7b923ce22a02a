import CondAttrs.Declaration.Item
import CondAttrs.Declaration.Splice
import CondAttrs.Token.Tree

/-!
# Expansion

The two ways to expand a source text. A whole file is expanded item by item;
what is not understood is passed through. A single item can be expanded on its
own, together with the arguments of the directive that invoked the expansion;
these become a native attribute in front of the item.

A file that is no token tree stays as it is. A single item that is none, or whose
arguments are refused, is replaced by an item that carries the error.

## Main definitions

* `expandItem`: one declaration, with invocation arguments.
* `transform`: a whole file.
-/

namespace CondAttrs

/-- An expanded text and what was found wrong on the way. -/
structure Expansion where
  /-- The output. -/
  text : Text
  /-- The faults in the order of the text. -/
  diagnostics : List Diagnostic

/-- Whether there was no error; warnings do not count. -/
def Expansion.ok (e : Expansion) : Bool :=
  !e.diagnostics.any Diagnostic.isError

namespace Item

/-- The faults of the annotations at the attachment points of an item. -/
def annotationFaults (i : Item) : List Diagnostic :=
  i.points.flatMap fun point => point.attachments.filterMap Attachment.fault?

/-- What is reported about an item. The reason why an item is passed through is
reported only if `warn` holds. -/
def report (warn : Bool) : Item → List Diagnostic
  | unsupported _ diagnostic => if warn then [diagnostic] else []
  | i => i.annotationFaults

/-- Whether it is worth a warning that the item was passed through: it mentions the
directive, and nothing inside it was expanded. -/
def mentionsDirective (s : Settings) : Item → Bool
  | unsupported tokens _ => Token.anyMentions s.directive tokens
  | _ => true

end Item

/-! ## Single items -/

/-- Whether the fault is that a directive has no condition with a comma behind it. -/
def Fault.lacksCondition : Fault → Bool
  | separatorMissing _ => true
  | conditionMissing => true
  | _ => false

/-- Where the arguments of an invocation are found. -/
def argumentsPointer : Text :=
  Pointer.ofSegments ["args"]

/-- The arguments of an invocation as a native attribute on a line of its own;
nothing if there are none. -/
def invocationHead (s : Settings) (arguments : Text) : Except Diagnostic Text := do
  let stream ← tokenize arguments
  match stream.tokens with
  | [] => return []
  | first :: _ =>
    match Body.parse s argumentsPointer .nowhere stream.tokens with
    | .ok body => return body.native s false ++ "\n"
    | .error d =>
      if d.fault.lacksCondition then
        let found := Text.strip (Token.renderAll stream.tokens)
        throw ⟨.argumentUnexpected s.directive found, argumentsPointer, first.pos⟩
      else throw d

/-- The item that a token list is as a whole. Tokens behind a declaration make the
whole list unsupported. -/
def Item.parseWhole (s : Settings) (pointer : Text) (tokens : List Token) : Item :=
  match Item.parse s pointer tokens with
  | (.unsupported _ d, _) => .unsupported tokens d
  | (item, []) => item
  | (.declared d, next :: _) =>
    .unsupported tokens ⟨.trailingTokens d.shape.kind.label next.label, pointer, next.pos⟩
  | (item, _) => item

/-- Where a single item is found. -/
def itemPointer : Text :=
  Pointer.ofSegments ["item"]

/-- Head, item and trailing trivia of a single item. -/
def expandParts (s : Settings) (item arguments : Text) :
    Except Diagnostic (Text × Item × Text) := do
  let head ← invocationHead s arguments
  let stream ← tokenize item
  return (head, Item.parseWhole s itemPointer stream.tokens, stream.trailing)

/-- Expands one annotated declaration. -/
def expandItem (s : Settings) (item arguments : Text) : Expansion :=
  match expandParts s item arguments with
  | .error d => ⟨Embed.itemText s d.fault.message, [d]⟩
  | .ok (head, item, trailing) =>
    ⟨head ++ item.lower s ++ trailing, item.report s.warnUnsupported⟩

/-! ## Files -/

/-- Expands every item of a file. Items that are passed through are reported if
they mention the directive. -/
def transform (s : Settings) (t : Text) : Expansion :=
  match tokenize t with
  | .error d => ⟨t, [d]⟩
  | .ok stream =>
    let items := Item.parseAll s stream.tokens
    ⟨items.flatMap (Item.lower s) ++ stream.trailing,
      items.flatMap fun i => i.report (s.warnUnsupported && i.mentionsDirective s)⟩

end CondAttrs
