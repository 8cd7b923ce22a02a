import CondAttrs.Proofs.Ending
import CondAttrs.Proofs.Reading.Point

/-!
# Items as frames

The text of an item depends on one text for every attachment point. Seen this way the item is a
*frame*: a text in front of the first slot, and behind every slot a gap up to the next one. Splicing
puts the texts between these and changes neither; it refuses a list that is too short or too long.

The slots of a frame are the attachment points in the order in which the parts of the declaration
list them. If every slot gets the annotations that were read there, the result is the text of the
tokens that were read.

## Main definitions

* `Piece.frame`, `Item.frame`: the fixed texts around the slots.
* `Frame.weave`: the texts of a list between the fixed texts.

## Main statements

* `Piece.splice_eq`: splicing weaves, if there is one text for every slot.
* `Item.parse_suffix`: an item takes the first of the tokens.
* `Item.parse_splice`: an item that has been read is an exact frame of its tokens.
-/

namespace CondAttrs

/-! ## Frames -/

/-- The fixed texts of an item: one in front of the first slot and one behind every slot. -/
structure Frame where
  /-- The text in front of the first slot. -/
  front : Text
  /-- For every slot, the text behind it. -/
  gaps : List Text

/-- The texts of a list, each in front of its gap. -/
def Frame.weave (f : Frame) (texts : List Text) : Text :=
  f.front ++ (texts.zip f.gaps).flatMap fun p => p.1 ++ p.2

namespace Piece

/-- The fixed texts around the slots of some pieces. -/
def frame : List Piece → Frame
  | [] => ⟨[], []⟩
  | fixed text :: rest => ⟨text ++ (frame rest).front, (frame rest).gaps⟩
  | slot _ :: rest => ⟨[], (frame rest).front :: (frame rest).gaps⟩

/-- There is a gap behind every slot. -/
theorem length_gaps (pieces : List Piece) :
    (frame pieces).gaps.length = (pieces.filterMap point?).length := by
  induction pieces with
  | nil => rfl
  | cons piece rest ih =>
    cases piece with
    | fixed text => exact ih
    | slot point => exact congrArg (· + 1) ih

theorem weave_fixed (text : Text) (rest : List Piece) (texts : List Text) :
    (frame (fixed text :: rest)).weave texts = text ++ (frame rest).weave texts :=
  List.append_assoc ..

theorem weave_slot (point : Point) (rest : List Piece) (text : Text) (texts : List Text) :
    (frame (slot point :: rest)).weave (text :: texts) = text ++ (frame rest).weave texts :=
  List.append_assoc ..

/-- Splicing weaves the texts into the frame. It fails if there are fewer texts than slots, and if
there are more. -/
theorem splice_eq (pieces : List Piece) (texts : List Text) :
    splice pieces texts =
      if texts.length < (frame pieces).gaps.length then .error .short
      else if (frame pieces).gaps.length < texts.length then .error .excess
      else .ok ((frame pieces).weave texts) := by
  induction pieces generalizing texts with
  | nil => cases texts <;> rfl
  | cons piece rest ih =>
    cases piece with
    | fixed text =>
      have hgaps : (frame (fixed text :: rest)).gaps = (frame rest).gaps := rfl
      rw [splice, ih, hgaps, weave_fixed]
      split
      · rfl
      split <;> rfl
    | slot point =>
      have hgaps : (frame (slot point :: rest)).gaps.length = (frame rest).gaps.length + 1 := rfl
      cases texts with
      | nil => rw [splice, hgaps, if_pos (by simp)]
      | cons text texts =>
        rw [splice, ih, hgaps, weave_slot, List.length_cons]
        simp only [Nat.add_lt_add_iff_right]
        split
        · rfl
        split <;> rfl

end Piece

/-! ## Items that have been read -/

namespace Item

/-- The fixed texts around the slots of an item. -/
def frame (i : Item) : Frame :=
  Piece.frame i.pieces

/-- One text for every attachment point is woven into the frame of an item. -/
theorem splice_eq (i : Item) (texts : List Text) :
    i.splice texts =
      if texts.length < i.points.length then .error .short
      else if i.points.length < texts.length then .error .excess
      else .ok (i.frame.weave texts) := by
  rw [splice, Piece.splice_eq, Piece.length_gaps]
  rfl

/-- What is behind an item is the end of the tokens. -/
theorem parse_suffix (s : Settings) (pointer : Text) (tokens : List Token) :
    (parse s pointer tokens).2 <:+ tokens := by
  have hscan := Attachment.scan_tokens s pointer tokens
  have hvisibility := spanVisibility_append (Attachment.scan s pointer tokens).2
  rcases parse_cases s pointer tokens with
    ⟨-, d, -, hparse⟩ | ⟨kind, shape, rest, -, hshape, hparse⟩
  · rw [hparse]
    exact ⟨_, passThrough_tokens tokens d⟩
  · rw [hparse]
    -- The annotations and the visibility stand in front of what the shape was taken from.
    have hbody : rest <:+ (spanVisibility (Attachment.scan s pointer tokens).2).2 := by
      rcases Shape.take_tokens hshape with ⟨-, -, htokens⟩ | ⟨_, g, -, -, htokens⟩
      · exact ⟨_, htokens.symm⟩
      · rw [htokens]
        exact (List.suffix_append _ rest).trans
          ((List.suffix_cons g _).trans (List.suffix_append _ _))
    exact hbody.trans (List.IsSuffix.trans ⟨_, hvisibility⟩ ⟨_, hscan⟩)

/-- An item that has been read, from any token of a list on, is a frame with a slot for every
attachment point: its own, those of its members and those inside them, and none if it is passed
through. One text for every point is woven into the frame; any other number of texts is refused. The
annotations that were read give back the text of the tokens that were read. -/
theorem parse_splice (s : Settings) (pointer : Text) (tokens : List Token) (start : Nat) :
    let item := (parse s pointer (tokens.drop start)).1
    let rest := (parse s pointer (tokens.drop start)).2
    let stop := start + ((tokens.drop start).length - rest.length)
    rest = tokens.drop stop ∧
      ((∃ d, item = .declared d ∧ item.points = d.point :: d.shape.points) ∨
        ∃ passed d, item = .unsupported passed d ∧ item.points = []) ∧
      item.frame.gaps.length = item.points.length ∧
      (∀ texts : List Text, (item.splice texts).mapError SpliceFault.message =
        if texts.length < item.points.length then .error "REWRITTEN_LISTS_SHORT"
        else if item.points.length < texts.length then .error "REWRITTEN_LISTS_EXCESS"
        else .ok (item.frame.weave texts)) ∧
      item.splice (item.points.map fun point =>
          Token.renderAll (point.attachments.flatMap Attachment.tokens)) =
        .ok (Token.renderAll (tokens.extract start stop)) := by
  intro item rest stop
  obtain ⟨own, hown⟩ := parse_suffix s pointer (tokens.drop start)
  have hlength : stop = start + own.length := by
    have h := congrArg List.length hown
    rw [List.length_append] at h
    show start + ((tokens.drop start).length - rest.length) = start + own.length
    have hrest : rest.length = (parse s pointer (tokens.drop start)).2.length := rfl
    omega
  refine ⟨?_, ?_, Piece.length_gaps item.pieces, fun texts => ?_, ?_⟩
  · rw [hlength, ← List.drop_drop, ← hown, List.drop_left]
  · rcases parse_cases s pointer (tokens.drop start) with ⟨-, d, -, hparse⟩ |
      ⟨kind, shape, _, -, -, hparse⟩
    · exact .inr ⟨_, d, congrArg Prod.fst hparse, by simp only [item, hparse]; rfl⟩
    · refine .inl ⟨_, congrArg Prod.fst hparse, ?_⟩
      simp only [item, hparse]
      exact points_declared _
  · rw [splice_eq, apply_ite (Except.mapError _), apply_ite (Except.mapError _)]
    rfl
  · have hextract : tokens.extract start stop = own := by
      rw [List.extract_eq_take_drop, hlength, Nat.add_sub_cancel_left, ← hown, List.take_left]
    rw [hextract]
    simp only [Token.renderAll_flatMap]
    exact splice_source rfl hown

end Item

end CondAttrs
