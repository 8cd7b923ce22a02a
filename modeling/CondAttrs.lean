import CondAttrs.Command.Expand
import CondAttrs.Command.Readme
import CondAttrs.Files.Tree
import CondAttrs.Main
import CondAttrs.Proofs.Lexical.Echo
import CondAttrs.Proofs.Lexical.Trivia
import CondAttrs.Proofs.Lexical.Glyph
import CondAttrs.Proofs.Lexical.Run
import CondAttrs.Proofs.Lexical.Tree
import CondAttrs.Proofs.Reading.Cell
import CondAttrs.Proofs.Reading.Chunk
import CondAttrs.Proofs.Reading.Step
import CondAttrs.Proofs.Reading.Fill
import CondAttrs.Proofs.Frame
import CondAttrs.Proofs.Lexical.Excerpt
import CondAttrs.Proofs.Lowering.Content
import CondAttrs.Proofs.Lowering.Replacement
import CondAttrs.Proofs.Lexical.Shebang
import CondAttrs.Proofs.Lowering.Genuine
import CondAttrs.Proofs.Lowering.Native
import CondAttrs.Proofs.Lowering.Deferral
import CondAttrs.Proofs.Reading.Reread
import CondAttrs.Proofs.Lowering.Carry
import CondAttrs.Proofs.Lowering.Output
import CondAttrs.Proofs.Lowering.Idempotence
import CondAttrs.Proofs.Lowering.Outline
import CondAttrs.Proofs.Reading.Place
import CondAttrs.Proofs.Reading.Independence
import CondAttrs.Proofs.Reading.Refuse
import CondAttrs.Proofs.SingleItem
import CondAttrs.Proofs.Lexical.Standing
import CondAttrs.Proofs.Reading.InOrder
import CondAttrs.Proofs.Report
import CondAttrs.Proofs.Lexical.Interval
import CondAttrs.Proofs.Lexical.Fault
import CondAttrs.Proofs.Ending
import CondAttrs.Proofs.Pointer
import CondAttrs.Proofs.Reading.Blame
import CondAttrs.Proofs.Address
import CondAttrs.Proofs.Files.Copy
import CondAttrs.Proofs.Files.Select
import CondAttrs.Proofs.Checking
import CondAttrs.Proofs.Splice
import CondAttrs.Proofs.Settings
import CondAttrs.Proofs.Files.Write
import CondAttrs.Proofs.Landing
import CondAttrs.Proofs.Delivery
import CondAttrs.Proofs.Reading.FirstFault
import CondAttrs.Proofs.Arguments
import CondAttrs.Proofs.Reading.Extent
import CondAttrs.Proofs.Reading.Separation
import CondAttrs.Proofs.Reading.TraitMembers
import CondAttrs.Proofs.Lexical.Bracket
import CondAttrs.Proofs.Lexical.Comment
import CondAttrs.Proofs.Lexical.Quotation
import CondAttrs.Proofs.Reading.Outside
import CondAttrs.Proofs.Lexical.FaultPlace
import CondAttrs.Proofs.Document
import CondAttrs.Proofs.Embedding
import CondAttrs.Proofs.Lexical.InterpreterLine
import CondAttrs.Proofs.Layout
import CondAttrs.Proofs.Reading.Generics
import CondAttrs.Proofs.Slice
import CondAttrs.Proofs.Reading.Path
