import CondAttrs.Proofs.Lexical.Standing
import CondAttrs.Proofs.Reading.Fill

/-!
# The order of annotations

The attachment points of an item are listed in the order of the text, whatever the shape of the
item: its own annotations come first, then those of its members, and the annotations of a
variant before those of the fields of the variant. No annotation is listed twice.

Annotations stand at several depths of a token tree. So their order is described by how a token
list is made up: in two parts that follow one another, or as a group that holds them.

## Main definitions

* `Attachment.InOrder`: annotations stand among tokens in order.

## Main statements

* `Item.inOrder_parseAll`: the annotations of a file stand in it in order.
* `Attachment.InOrder.positions`: so do the positions of their tokens.
-/

namespace CondAttrs

namespace Attachment

/-- The annotations stand among the tokens, at some depth, one behind the other. -/
inductive InOrder : List Attachment → List Token → Prop
  /-- There need not be any. -/
  | none (ts : List Token) : InOrder [] ts
  /-- The tokens are those of the annotations. -/
  | own (l : List Attachment) : InOrder l (l.flatMap tokens)
  /-- One part of the tokens follows the other. -/
  | append {l l' : List Attachment} {ts ts' : List Token} :
      InOrder l ts → InOrder l' ts' → InOrder (l ++ l') (ts ++ ts')
  /-- All stand in a group. -/
  | inside {l : List Attachment} {children : List Token} (leading : Text) (pos : Position)
      (d : Delimiter) (closeLeading : Text) :
      InOrder l children → InOrder l [.group leading pos d children closeLeading]

namespace InOrder

variable {l : List Attachment} {ts : List Token}

theorem before (h : InOrder l ts) (more : List Token) : InOrder l (ts ++ more) := by
  simpa using h.append (none more)

theorem behind (h : InOrder l ts) (more : List Token) : InOrder l (more ++ ts) :=
  (none more).append h

/-- The positions of annotations in order are among those of the tokens, in order. -/
theorem positions (h : InOrder l ts) :
    (l.flatMap fun a => Token.positionsAll a.tokens).Sublist (Token.positionsAll ts) := by
  induction h with
  | none ts => exact List.nil_sublist _
  | own l =>
    simp only [Token.positionsAll_eq_flatMap, List.flatMap_assoc]
    exact List.Sublist.refl _
  | append _ _ ih ih' =>
    rw [List.flatMap_append, Token.positionsAll_append]
    exact ih.append ih'
  | inside leading pos d closeLeading _ ih =>
    rw [Token.positionsAll, Token.positionsAll, List.append_nil, Token.positions]
    exact ih.cons pos

end InOrder

theorem inOrder_scan (s : Settings) (pointer : Text) (tokens : List Token) :
    InOrder (scan s pointer tokens).1 tokens := by
  have happend := (InOrder.own (scan s pointer tokens).1).before (scan s pointer tokens).2
  rwa [scan_tokens] at happend

end Attachment

open Attachment (InOrder)

/-! ## Members -/

namespace Members

variable (s : Settings)

/-- Members are listed in the order of their chunks. -/
theorem inOrder_ofChunks {α : Type} {pieces : α → List Piece} {g : Token} {d : Delimiter}
    {split : List Token → List (List Token)} {read : Nat → Text → List Token → α}
    (hg : g.isGroup d = true) (hsplit : Chunk.SplitsInStep split) (pointer name : Text)
    (h : ∀ index pointer chunk,
      InOrder ((pieces (read index pointer chunk)).flatMap Piece.attachments) chunk) :
    InOrder (((ofChunks g d pointer name (split g.children) read).pieces pieces).flatMap
      Piece.attachments) [g] := by
  obtain ⟨leading, pos, children, closeLeading, rfl⟩ := Token.isGroup_iff.1 hg
  have hmembers : ∀ (chunks : List (List Token)) (of : Nat → List Token → α),
      (∀ index chunk, InOrder ((pieces (of index chunk)).flatMap Piece.attachments) chunk) →
      InOrder (((chunks.mapIdx of).flatMap pieces).flatMap Piece.attachments) chunks.flatten := by
    intro chunks
    induction chunks with
    | nil => exact fun _ _ => .none []
    | cons chunk chunks ih =>
      intro of hof
      rw [List.mapIdx_cons, List.flatMap_cons, List.flatMap_append, List.flatten_cons]
      exact (hof 0 chunk).append (ih _ fun index chunk => hof (index + 1) chunk)
  have hall := hmembers (split children) (fun index chunk =>
    read index (Pointer.entry pointer name index) chunk) fun index chunk => h index _ chunk
  rw [hsplit.flatten] at hall
  have hlisted := hall.inside leading pos d closeLeading
  simpa only [Members.pieces, ofChunks, Token.children, List.flatMap_cons, List.flatMap_append,
    List.flatMap_nil, Piece.attachments, List.nil_append, List.append_nil] using hlisted

theorem inOrder_fields (pointer : Text) {g : Token} {d : Delimiter} (hg : g.isGroup d = true) :
    InOrder (((fields s pointer g d).pieces Member.pieces).flatMap Piece.attachments) [g] := by
  refine inOrder_ofChunks hg Chunk.splitFields_inStep pointer _ fun index pointer chunk => ?_
  simpa [Member.pieces, Piece.attachments, Piece.ofTokens] using
    Attachment.inOrder_scan s pointer chunk

theorem inOrder_traitMembers (pointer : Text) {g : Token} (hg : g.isGroup .brace = true) :
    InOrder (((traitMembers s pointer g).pieces Member.pieces).flatMap Piece.attachments) [g] := by
  refine inOrder_ofChunks hg Chunk.splitMembers_inStep pointer _ fun index pointer chunk => ?_
  simpa [Member.pieces, Piece.attachments, Piece.ofTokens] using
    Attachment.inOrder_scan s pointer chunk

theorem inOrder_variantFields (pointer : Text) (tokens : List Token) :
    InOrder (((variantFields s pointer tokens).1.elim [] (pieces Member.pieces)).flatMap
      Piece.attachments) tokens := by
  cases tokens with
  | nil => exact .none []
  | cons t rest =>
    simp only [variantFields]
    split
    · rename_i ht
      exact (inOrder_fields s pointer ht).before rest
    split
    · rename_i ht
      exact (inOrder_fields s pointer ht).before rest
    · exact .none (t :: rest)

/-- The annotations of a variant come before those of its fields. -/
theorem inOrder_variantOf (pointer : Text) (chunk : List Token) :
    InOrder ((variantOf s pointer chunk).pieces.flatMap Piece.attachments) chunk := by
  have hscan := Attachment.scan_tokens s pointer chunk
  have hvariant := splitVariant_append (Attachment.scan s pointer chunk).2
  have hfields := inOrder_variantFields s pointer
    (splitVariant (Attachment.scan s pointer chunk).2).2.2
  have hlisted := (InOrder.own (Attachment.scan s pointer chunk).1).append
    (hfields.behind (splitVariant (Attachment.scan s pointer chunk).2).2.1)
  rw [hvariant, hscan] at hlisted
  simpa [variantOf, Variant.pieces, Piece.attachments, Piece.ofTokens] using hlisted

theorem inOrder_variants (pointer : Text) {g : Token} (hg : g.isGroup .brace = true) :
    InOrder (((variants s pointer g).pieces Variant.pieces).flatMap Piece.attachments) [g] := by
  rw [variants_eq]
  exact inOrder_ofChunks hg Chunk.splitFields_inStep pointer _ fun _ pointer chunk =>
    inOrder_variantOf s pointer chunk

end Members

theorem Reading.inOrder_read (s : Settings) (pointer : Text) {reading : Reading} {g : Token}
    (hg : g.isGroup reading.delimiter = true) :
    InOrder ((reading.read s pointer g).pieces.flatMap Piece.attachments) [g] := by
  cases reading with
  | fields d => exact Members.inOrder_fields s pointer hg
  | variants => exact Members.inOrder_variants s pointer hg
  | traitMembers => exact Members.inOrder_traitMembers s pointer hg

/-- The annotations of the members of a shape stand in front of the rest. -/
theorem Shape.inOrder_take {s : Settings} {pointer : Text} {kind : Kind}
    {tokens rest : List Token} {shape : Shape}
    (h : Shape.take s pointer kind tokens = .ok (shape, rest)) :
    ∃ own, tokens = own ++ rest ∧ InOrder (shape.pieces.flatMap Piece.attachments) own := by
  rw [Shape.pieces_attachments]
  rcases Shape.take_tokens h with ⟨hroster, -, rfl⟩ | ⟨reading, g, hg, hroster, rfl⟩
  · rw [hroster]
    exact ⟨shape.before, rfl, .none _⟩
  · rw [hroster]
    refine ⟨shape.before ++ [g] ++ shape.after, by simp, ?_⟩
    exact ((reading.inOrder_read s pointer hg).behind shape.before).before shape.after

/-! ## Items -/

namespace Item

theorem inOrder_passThrough (tokens : List Token) (d : Diagnostic) :
    ∃ own, tokens = own ++ (passThrough tokens d).2 ∧
      InOrder (passThrough tokens d).1.attachments own :=
  ⟨_, (passThrough_tokens tokens d).symm, .none _⟩

/-- The annotations of an item stand in front of the rest. -/
theorem inOrder_parse (s : Settings) (pointer : Text) (tokens : List Token) :
    ∃ own, tokens = own ++ (parse s pointer tokens).2 ∧
      InOrder (parse s pointer tokens).1.attachments own := by
  have hscan := Attachment.scan_tokens s pointer tokens
  have hvisibility := spanVisibility_append (Attachment.scan s pointer tokens).2
  simp only [parse]
  split
  · exact inOrder_passThrough tokens _
  split
  · exact inOrder_passThrough tokens _
  · rename_i shape rest htake
    obtain ⟨own, hown, hshape⟩ := Shape.inOrder_take htake
    rw [← hvisibility, hown] at hscan
    refine ⟨_, by rw [← List.append_assoc, ← List.append_assoc] at hscan; exact hscan.symm, ?_⟩
    rw [attachments_declared, List.append_assoc]
    exact (InOrder.own _).append (hshape.behind _)

theorem inOrder_parseFrom (s : Settings) (index : Nat) (tokens : List Token) :
    InOrder ((parseFrom s index tokens).flatMap attachments) tokens := by
  fun_induction parseFrom s index tokens with
  | case1 => exact .none []
  | case2 index t rest result ih =>
    obtain ⟨own, htokens, hown⟩ := inOrder_parse s (pointerOf index) (t :: rest)
    rw [htokens, List.flatMap_cons]
    exact hown.append ih

/-- The annotations of a file stand in it in order. -/
theorem inOrder_parseAll (s : Settings) (tokens : List Token) :
    InOrder ((parseAll s tokens).flatMap attachments) tokens := by
  rcases parseAll_cases s tokens with ⟨hnil, hparse⟩ | ⟨-, hparse⟩
  · rw [hparse, behindHead, hnil]
    exact inOrder_parseFrom s 0 tokens
  · have hhead := InOrder.own (Attachment.ofForms s (pointerOf 0) (headForms tokens))
    rw [Attachment.flatMap_tokens_ofForms] at hhead
    have hlisted := hhead.append (inOrder_parseFrom s 1 (behindHead tokens))
    rw [headForms_append] at hlisted
    rw [hparse, List.flatMap_cons, attachments_enclosing]
    exact hlisted

end Item

end CondAttrs
