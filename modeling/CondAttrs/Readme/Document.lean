import CondAttrs.Text.Blank

/-!
# Documents

A document is read line by line into text lines and fenced code blocks. A block
opens with at least three backticks, indented by at most three blanks, and closes
with a line that holds the same backticks at the same indentation. It also ends,
without a closing line, before a line that is indented less, and at the end of
the document. Its content loses the indentation of the fence.

The reader is a step function on lines: a line either adds to the block that is
open or closes it, and outside a block it opens one or is a text line. Headings
among the text lines go down one level on the way.

## Main definitions

* `Node.step`, `Node.readAll`: the nodes of a list of lines.
* `CodeBlock.render`: a code block as the lines of the output, its hidden lines
  dropped.
-/

namespace CondAttrs.Readme

/-! ## Lines -/

/-- The greatest indentation of a fence. -/
def maxFenceIndent : Nat := 3

/-- The number of heading levels. -/
def headingLevels : Nat := 6

/-- The number of blanks in front of a line that may open or close a fence; none for
a line that is indented too far. -/
def fenceIndent (line : Text) : Option Nat :=
  let indentation := ((line.take maxFenceIndent).takeWhile (· = ' ')).length
  if indentation = maxFenceIndent && (line.drop maxFenceIndent).head?.any Text.isBlank then none
  else some indentation

/-- A heading goes down one level; any other line stays. -/
def promoteHeading (line : Text) : Text :=
  let levels := ((line.take headingLevels).takeWhile (· = '#')).length
  if levels ≠ 0 && (line.drop levels).head? = some ' ' then '#' :: line else line

/-- Whether a line is the given word, or starts with it and a blank; blanks at the
end of the line do not count. -/
def startsWithWord (word line : Text) : Bool :=
  let trimmed := Text.trimRight line
  trimmed = word || (word ++ [' ']).isPrefixOf trimmed

/-- A line of code as it is shown. A line that starts with the word `#` is hidden;
`##` escapes a line that shows a hash. -/
def unhide (line : Text) : Option Text :=
  if startsWithWord ['#'] line then none
  else if startsWithWord ['#', '#'] line then some (line.drop 1)
  else some line

/-! ## Nodes -/

/-- A fenced block of code. -/
structure CodeBlock where
  /-- The backticks of the fence. -/
  fence : Text
  /-- The number of blanks in front of the fence. -/
  indentation : Nat
  /-- What stands behind the opening backticks. -/
  info : Option Text
  /-- The content, without the indentation of the fence. -/
  lines : List Text := []
deriving DecidableEq

/-- A part of a document. -/
inductive Node where
  /-- A line of text. -/
  | text (line : Text)
  /-- A block of code. -/
  | code (block : CodeBlock)
deriving DecidableEq

namespace CodeBlock

/-- The block that a line opens. -/
def ofOpening (line : Text) : Option CodeBlock :=
  (fenceIndent line).bind fun indentation =>
    let rest := line.drop indentation
    let fence := rest.takeWhile (· = Char.ofNat 0x60)
    let info := Text.trimRight (rest.drop fence.length)
    if fence.length ≥ 3 then
      some { fence, indentation, info := if info.isEmpty then none else some info }
    else none

/-- Whether a line is indented less than the block, and so ends it. -/
def endsBefore (b : CodeBlock) (line : Text) : Bool :=
  !line.isEmpty && (fenceIndent line).any (· < b.indentation)

/-- Whether a line is the closing fence of the block. -/
def closedBy (b : CodeBlock) (line : Text) : Bool :=
  Text.trimRight (line.drop b.indentation) = b.fence

/-- The block with one more line of content. -/
def add (b : CodeBlock) (line : Text) : CodeBlock :=
  { b with lines := b.lines ++ [line.drop b.indentation] }

/-- What is written behind the opening backticks if nothing stood there. -/
def defaultInfo : Text := "rust"

/-- A line of the block in the output. -/
def indent (b : CodeBlock) (line : Text) : Text :=
  if line.isEmpty then [] else List.replicate b.indentation ' ' ++ line

/-- The block as the lines of the output. -/
def render (b : CodeBlock) : List Text :=
  b.indent (b.fence ++ b.info.getD defaultInfo) ::
    ((b.lines.filterMap unhide).map b.indent ++ [b.indent b.fence])

end CodeBlock

namespace Node

/-- A line outside all blocks: the nodes that are complete with it, and the block
that it opens. -/
def stepOutside (line : Text) : List Node × Option CodeBlock :=
  match CodeBlock.ofOpening line with
  | some block => ([], some block)
  | none => ([.text (promoteHeading line)], none)

/-- One line: the nodes that are complete with it, and the block that is open
behind it. -/
def step (block : Option CodeBlock) (line : Text) : List Node × Option CodeBlock :=
  match block with
  | none => stepOutside line
  | some b =>
    if b.endsBefore line then
      let (nodes, next) := stepOutside line
      (.code b :: nodes, next)
    else if b.closedBy line then ([.code b], none)
    else ([], some (b.add line))

/-- The nodes of the remaining lines, with the block that is open before them. -/
def readFrom : Option CodeBlock → List Text → List Node
  | block, [] => block.toList.map .code
  | block, line :: rest => (step block line).1 ++ readFrom (step block line).2 rest

/-- The nodes of a document. -/
def readAll (lines : List Text) : List Node :=
  readFrom none lines

/-- A node as the lines of the output. -/
def render : Node → List Text
  | text line => [line]
  | code block => block.render

end Node

end CondAttrs.Readme
