import CondAttrs.Proofs.Reading.Extent
import CondAttrs.Proofs.Reading.Grammar
import CondAttrs.Proofs.Reading.Independence

/-!
# Members between commas

Fields and variants are written one behind the other, each with its annotations in front, and
commas keep them apart; the last comma may be missing. The scan that looks for the end of a member
finds these commas and no others, if the angle brackets of every member are balanced and its
generic arguments are the only place where it has commas outside groups. Behind a plain `=` a value
begins, where angle brackets are operators.

Then every member is found, with an attachment point that has its annotations and no others, and
what else there is of it renders as it was written. The fields of a variant are members of the same
kind, one group further inside.

## Main definitions

* `Chunk.isWhole`: the tokens have no comma that would end a member.
* `Written`, `Separated`: members as they are written.
* `AsWritten`: members that have been read are the ones that were written.

## Main statements

* `Separated.splitFields`: splitting undoes joining.
* `Members.asWritten_of_separated`: every field and variant that was written is read.
-/

namespace CondAttrs

/-! ## The end of a member -/

namespace Chunk

/-- Whether the tokens have no comma outside angle brackets, and all angle brackets are closed. They
are counted up to the first plain `=` outside of them. -/
def isWhole : (previous : Option Token) → (depth : Nat) → List Token → Bool
  | _, depth, [] => depth = 0
  | previous, depth, t :: rest =>
    if depth = 0 && t.isPunct ',' then false
    else if depth = 0 && isPlainEquals previous t rest.head? then rest.all (!·.isPunct ',')
    else isWhole (some t) (Angle.step previous t depth) rest

/-- What comes behind a member is a comma, if anything. -/
def EndsMember (behind : List Token) : Prop :=
  ∀ t, behind.head? = some t → t.isPunct ',' = true

/-- The comma behind a member is no part of an operator in it. -/
theorem isPlainEquals_behind (previous : Option Token) (t : Token) (rest : List Token)
    {behind : List Token} (h : EndsMember behind) :
    isPlainEquals previous t (rest ++ behind).head? = isPlainEquals previous t rest.head? := by
  cases rest with
  | cons next rest => rfl
  | nil =>
    cases behind with
    | nil => rfl
    | cons comma behind =>
      obtain ⟨_, _, _, rfl⟩ := Token.isPunct_iff.1 (h comma rfl)
      simp [isPlainEquals, Token.isPunct]

theorem spanField_stop {p : Progress} (hdepth : p.depth = 0) {behind : List Token}
    (h : EndsMember behind) : spanField p behind = (behind.take 1, behind.drop 1) := by
  cases behind with
  | nil => rfl
  | cons comma behind => simp [spanField, hdepth, h comma rfl]

/-- A value goes up to the comma. -/
theorem spanField_value {p : Progress} (hdepth : p.depth = 0) (hvalue : p.inValue = true)
    {body behind : List Token} (hbody : body.all (!·.isPunct ',') = true) (h : EndsMember behind) :
    spanField p (body ++ behind) = (body ++ behind.take 1, behind.drop 1) := by
  induction body generalizing p with
  | nil => exact spanField_stop hdepth h
  | cons t body ih =>
    obtain ⟨ht, hbody⟩ := Bool.and_eq_true_iff.1 hbody
    have hcomma : t.isPunct ',' = false := by simpa using ht
    have hstep : (p.step t (body ++ behind).head?).depth = 0 ∧
        (p.step t (body ++ behind).head?).inValue = true := by
      simp [Progress.step, hdepth, hvalue]
    rw [List.cons_append, spanField, hcomma, Bool.and_false, if_neg Bool.false_ne_true,
      ih hstep.1 hstep.2 hbody]
    rfl

/-- The scan of a member goes up to the comma behind it. -/
theorem spanField_whole {p : Progress} (hvalue : p.inValue = false) {body behind : List Token}
    (hbody : isWhole p.previous p.depth body = true) (h : EndsMember behind) :
    spanField p (body ++ behind) = (body ++ behind.take 1, behind.drop 1) := by
  induction body generalizing p with
  | nil => exact spanField_stop (of_decide_eq_true hbody) h
  | cons t body ih =>
    rw [isWhole] at hbody
    split at hbody
    · cases hbody
    rename_i hcomma
    rw [List.cons_append, spanField, if_neg hcomma]
    have hplain := isPlainEquals_behind p.previous t body h
    split at hbody
    · rename_i hequals
      obtain ⟨hdepth, hequals⟩ := Bool.and_eq_true_iff.1 hequals
      have hstep : (p.step t (body ++ behind).head?).depth = 0 ∧
          (p.step t (body ++ behind).head?).inValue = true := by
        simp only [Progress.step, hplain, hequals, hdepth, Bool.and_true, Bool.or_true, ↓reduceIte]
        exact ⟨of_decide_eq_true hdepth, trivial⟩
      rw [spanField_value hstep.1 hstep.2 hbody h]
      rfl
    · rename_i hequals
      have hstep : p.step t (body ++ behind).head? =
          ⟨some t, Angle.step p.previous t p.depth, false⟩ := by
        simp only [Progress.step, hplain, hvalue, Bool.false_or, Bool.eq_false_iff.2 hequals]
        rfl
      rw [hstep, ih rfl hbody]
      rfl

end Chunk

/-! ## Members as they are written -/

/-- A member as it is written. -/
structure Written where
  /-- The annotations in front. -/
  marks : List Token
  /-- The tokens behind the annotations. -/
  body : List Token
  /-- The comma behind the member, if there is one. -/
  comma : Option Token

namespace Written

/-- The tokens behind the annotations, with the comma. -/
def rest (w : Written) : List Token :=
  w.body ++ w.comma.toList

/-- All tokens of a member. -/
def tokens (w : Written) : List Token :=
  w.marks ++ w.rest

/-- The parts of a member are what they are meant to be. -/
structure Sound (w : Written) : Prop where
  marks : (Form.readAll w.marks).2 = []
  body : Form.read w.body = none
  whole : Chunk.isWhole none 0 w.body = true
  comma : ∀ t ∈ w.comma, t.isPunct ',' = true

theorem sound_iff {w : Written} :
    w.Sound ↔ ((Form.readAll w.marks).2.isEmpty && (Form.read w.body).isNone &&
      Chunk.isWhole none 0 w.body && w.comma.all (Token.isPunct ',')) = true := by
  simp only [Bool.and_eq_true, List.isEmpty_iff, Option.isNone_iff_eq_none, Option.all_eq_true]
  exact ⟨fun h => ⟨⟨⟨h.marks, h.body⟩, h.whole⟩, h.comma⟩, fun h => ⟨h.1.1.1, h.1.1.2, h.1.2, h.2⟩⟩

theorem Sound.endsMember {w : Written} (h : w.Sound) (more : List Token)
    (hmore : w.comma = none → more = []) : Chunk.EndsMember (w.comma.toList ++ more) := by
  intro t ht
  cases hcomma : w.comma with
  | none =>
    rw [hcomma, hmore hcomma] at ht
    cases ht
  | some comma =>
    rw [hcomma] at ht
    cases ht
    exact h.comma t hcomma

/-- A comma does not complete an annotation. -/
theorem Sound.read_rest {w : Written} (h : w.Sound) : Form.read w.rest = none := by
  cases hcomma : w.comma with
  | none =>
    rw [rest, hcomma, Option.toList_none, List.append_nil]
    exact h.body
  | some comma =>
    rw [rest, hcomma, Form.read_eq_none_iff]
    intro f behind hf heq
    rcases List.eq_nil_or_concat behind with rfl | ⟨more, last, rfl⟩
    · have hmem : comma ∈ f.tokens := by
        rw [List.append_nil] at heq
        rw [← heq]
        exact List.mem_append_right _ (List.mem_singleton_self comma)
      have hmark := (Token.halts_isPunct (c := ',') (by decide)).mark (hf.isMark comma hmem)
      rw [h.comma comma hcomma] at hmark
      cases hmark
    · rw [List.concat_eq_append, ← List.append_assoc] at heq
      exact Form.read_eq_none_iff.1 h.body f more hf (List.append_inj' heq rfl).1

/-- The annotations of a member are those in front of it. -/
theorem Sound.scan {w : Written} (h : w.Sound) (s : Settings) (pointer : Text) :
    Attachment.scan s pointer w.tokens = ((Attachment.scan s pointer w.marks).1, w.rest) := by
  have hread := Form.readAll_of_proper (Form.readAll_spec w.marks).1 h.read_rest
  rw [flatMap_readAll h.marks] at hread
  rw [Attachment.scan, tokens, hread]
  rfl

/-- The scan of a member ends behind its comma. -/
theorem Sound.spanField {w : Written} (h : w.Sound) (more : List Token)
    (hmore : w.comma = none → more = []) :
    Chunk.spanField {} (w.tokens ++ more) = (w.tokens, more) := by
  have hforms := Chunk.divides_fields.forms (Form.readAll_spec w.marks).1
    (w.body ++ (w.comma.toList ++ more))
  have hspan := @Chunk.spanField_whole {} rfl _ _ h.whole (h.endsMember more hmore)
  have hbehind : (w.comma.toList ++ more).take 1 = w.comma.toList ∧
      (w.comma.toList ++ more).drop 1 = more := by
    cases hcomma : w.comma with
    | none =>
      rw [hmore hcomma]
      exact ⟨rfl, rfl⟩
    | some comma => exact ⟨rfl, rfl⟩
  rw [flatMap_readAll h.marks, hspan, hbehind.1, hbehind.2] at hforms
  rw [tokens, rest, List.append_assoc, List.append_assoc, hforms]

end Written

/-- Members are kept apart by commas. Only behind the last one there may be none, if it has any
tokens. -/
inductive Separated : List Written → Prop
  | nil : Separated []
  | last {w : Written} : w.Sound → w.tokens ≠ [] → Separated [w]
  | cons {w : Written} {rest : List Written} : w.Sound → w.comma.isSome = true → Separated rest →
      Separated (w :: rest)

theorem Separated.sound {written : List Written} (h : Separated written) {w : Written}
    (hw : w ∈ written) : w.Sound := by
  induction h with
  | nil => cases hw
  | last hsound _ =>
    rw [List.mem_singleton.1 hw]
    exact hsound
  | cons hsound _ _ ih =>
    rcases List.mem_cons.1 hw with rfl | hw
    · exact hsound
    · exact ih hw

/-- Splitting undoes joining. -/
theorem Separated.splitFields {written : List Written} (h : Separated written) :
    Chunk.splitFields (written.flatMap Written.tokens) = written.map Written.tokens := by
  induction h with
  | nil => exact Chunk.divides_fields.nil
  | @last w hw hne =>
    have hspan := hw.spanField [] fun _ => rfl
    rw [List.flatMap_singleton, Chunk.divides_fields.cons hne]
    rw [List.append_nil] at hspan
    rw [hspan, Chunk.divides_fields.nil]
    rfl
  | @cons w rest hw hcomma _ ih =>
    have hspan := hw.spanField (rest.flatMap Written.tokens) fun hnone => by
      rw [hnone] at hcomma
      cases hcomma
    have hne : w.tokens ++ rest.flatMap Written.tokens ≠ [] := by
      obtain ⟨comma, hcomma⟩ := Option.isSome_iff_exists.1 hcomma
      simp [Written.tokens, Written.rest, hcomma]
    rw [List.flatMap_cons, Chunk.divides_fields.cons hne, hspan, ih]
    rfl

/-! ## Members that have been read -/

/-- The pieces start with the attachment point of the member, which has the annotations in front of
it, and the other pieces are the rest of its text. -/
def Written.Carried (s : Settings) (pointer : Text) (pieces : List Piece) (w : Written) : Prop :=
  ∃ point parts, pieces = .slot point :: parts ∧ point.pointer = pointer ∧
    point.attachments = (Attachment.scan s pointer w.marks).1 ∧
    parts.flatMap (Piece.fill Attachment.source) = Token.renderAll w.rest

/-- The members that have been read are the ones that were written, in order. -/
def AsWritten {α : Type} (s : Settings) (pointer name : Text) (pieces : α → List Piece)
    (written : List Written) (members : List α) : Prop :=
  members.length = written.length ∧ ∀ (index : Nat) (w : Written) (x : α),
    written[index]? = some w → members[index]? = some x →
      w.Carried s (Pointer.entry pointer name index) (pieces x)

namespace Members

variable {s : Settings}

/-- The member at an index is read from the one that was written there. -/
theorem eq_read_of_written {α : Type} {read : Nat → Text → List Token → α} {written : List Written}
    (hwritten : Separated written) {g : Token} (hg : g.children = written.flatMap Written.tokens)
    {d : Delimiter} {pointer name : Text} {index : Nat} {w : Written} {x : α}
    (hw : written[index]? = some w)
    (hx : (ofChunks g d pointer name (Chunk.splitFields g.children) read).members[index]? =
      some x) : x = read index (Pointer.entry pointer name index) w.tokens := by
  rw [hg, hwritten.splitFields] at hx
  simp only [ofChunks, List.getElem?_mapIdx, List.getElem?_map, hw, Option.map_some,
    Option.some.injEq] at hx
  exact hx.symm

/-- A reader of members attaches the annotations of a chunk and keeps its text. -/
structure KeepsChunks {α : Type} (s : Settings) (pieces : α → List Piece)
    (read : Nat → Text → List Token → α) : Prop where
  slot : ∀ index pointer chunk, ∃ point parts, pieces (read index pointer chunk) =
    .slot point :: parts ∧ point.pointer = pointer ∧
      point.attachments = (Attachment.scan s pointer chunk).1
  text : ∀ index pointer chunk,
    (pieces (read index pointer chunk)).flatMap (Piece.fill Attachment.source) =
      Token.renderAll chunk

namespace KeepsChunks

variable {α : Type} {pieces : α → List Piece} {read : Nat → Text → List Token → α}

theorem carried (h : KeepsChunks s pieces read) {w : Written} (hw : w.Sound) (index : Nat)
    (pointer : Text) : w.Carried s pointer (pieces (read index pointer w.tokens)) := by
  obtain ⟨point, parts, hpieces, hpointer, hattachments⟩ := h.slot index pointer w.tokens
  rw [hw.scan] at hattachments
  refine ⟨point, parts, hpieces, hpointer, hattachments, ?_⟩
  have hmarks : point.attachments.flatMap Attachment.source = Token.renderAll w.marks := by
    have htokens := Attachment.scan_tokens s pointer w.marks
    have hnone : (Attachment.scan s pointer w.marks).2 = [] := hw.marks
    rw [hnone, List.append_nil] at htokens
    rw [hattachments]
    exact (Token.renderAll_flatMap _ _).symm.trans (congrArg Token.renderAll htokens)
  have htext := h.text index pointer w.tokens
  rw [hpieces, List.flatMap_cons, Piece.fill, hmarks, Written.tokens,
    Token.renderAll_append] at htext
  exact List.append_cancel_left htext

/-- Members that are kept apart by commas are all read, and each with its own annotations. -/
theorem asWritten (h : KeepsChunks s pieces read) {written : List Written}
    (hwritten : Separated written) {g : Token} (hg : g.children = written.flatMap Written.tokens)
    (d : Delimiter) (pointer name : Text) :
    AsWritten s pointer name pieces written
      (ofChunks g d pointer name (Chunk.splitFields g.children) read).members := by
  refine ⟨?_, fun index w x hw hx => ?_⟩
  · rw [hg, hwritten.splitFields]
    simp [ofChunks]
  · rw [eq_read_of_written hwritten hg hw hx]
    exact h.carried (hwritten.sound (List.mem_of_getElem? hw)) index _

end KeepsChunks

theorem keepsChunks_fields (d : Delimiter) :
    KeepsChunks s Member.pieces fun index pointer chunk =>
      (⟨⟨.field, if d = .brace then fieldName (Attachment.scan s pointer chunk).2
          else Text.decimal index, pointer, (Attachment.scan s pointer chunk).1⟩,
        (Attachment.scan s pointer chunk).2⟩ : Member) where
  slot _ _ _ := ⟨_, _, rfl, rfl, rfl⟩
  text _ pointer chunk := by
    rw [← @Member.render_fill Attachment.tokens Attachment.source fun _ => rfl, Member.fill,
      Attachment.scan_tokens]

theorem keepsChunks_variants :
    KeepsChunks s Variant.pieces fun _ pointer chunk => variantOf s pointer chunk where
  slot _ _ _ := ⟨_, _, rfl, rfl, rfl⟩
  text _ pointer chunk := by
    rw [← @Variant.render_fill Attachment.tokens Attachment.source fun _ => rfl]
    exact Token.renderAll_of_forgetAll (forgetAll_fill_variantOf s pointer chunk)

/-- The fields of a variant are read from the group behind its name. -/
theorem fields_variantOf {w : Written} (hw : w.Sound) (pointer : Text)
    {visibility tail : List Token} {name g : Token} {d : Delimiter}
    (hbody : spanVisibility w.body = (visibility, name :: g :: tail)) (hname : name.isIdent = true)
    (hd : d = .brace ∨ d = .paren) (hg : g.isGroup d = true) :
    (variantOf s pointer w.tokens).fields = some (fields s pointer g d) := by
  have happend := spanVisibility_append w.body
  have hahead := spanVisibility_ahead w.body (name :: g :: (tail ++ w.comma.toList))
  rw [hbody] at happend hahead
  have hrest : spanVisibility w.rest = (visibility, name :: g :: (tail ++ w.comma.toList)) := by
    rw [← hahead rfl, Written.rest, ← happend, List.append_assoc, List.cons_append,
      List.cons_append]
  obtain ⟨text, htext⟩ := Option.isSome_iff_exists.1 hname
  have hsplit : splitVariant w.rest =
      (text, visibility ++ [name], g :: (tail ++ w.comma.toList)) := by
    simp only [splitVariant, hrest, htext]
  simp only [variantOf, hw.scan, hsplit, variantFields_of_group hd hg]

/-- Members that were written one behind the other, kept apart by commas, are all read, as fields
and as variants: each has an attachment point with the annotations in front of it, and otherwise the
text that was written. So are the fields of a variant, if a group in parentheses or braces comes
behind its name. -/
theorem asWritten_of_separated (pointer : Text) {g : Token} {written : List Written}
    (hwritten : Separated written) (hg : g.children = written.flatMap Written.tokens) :
    (∀ d, AsWritten s pointer "fields" Member.pieces written (fields s pointer g d).members) ∧
    AsWritten s pointer "variants" Variant.pieces written (variants s pointer g).members ∧
    ∀ index w v, written[index]? = some w → (variants s pointer g).members[index]? = some v →
      ∀ visibility name group tail inner,
        spanVisibility w.body = (visibility, name :: group :: tail) → name.isIdent = true →
        group.isGroup .paren = true ∨ group.isGroup .brace = true →
        Separated inner → group.children = inner.flatMap Written.tokens →
        ∃ fields, v.fields = some fields ∧
          AsWritten s (Pointer.entry pointer "variants" index) "fields" Member.pieces inner
            fields.members := by
  refine ⟨fun d => (keepsChunks_fields d).asWritten hwritten hg d pointer _,
    keepsChunks_variants.asWritten hwritten hg .brace pointer _, ?_⟩
  intro index w v hw hv visibility name group tail inner hbody hname hgroup hinner hchildren
  obtain ⟨d, hd, hgroup⟩ : ∃ d, (d = .brace ∨ d = .paren) ∧ group.isGroup d = true := by
    rcases hgroup with hparen | hbrace
    · exact ⟨.paren, .inr rfl, hparen⟩
    · exact ⟨.brace, .inl rfl, hbrace⟩
  rw [variants_eq] at hv
  rw [eq_read_of_written hwritten hg hw hv]
  exact ⟨_, fields_variantOf (hwritten.sound (List.mem_of_getElem? hw)) _ hbody hname hd hgroup,
    (keepsChunks_fields d).asWritten hinner hchildren d _ _⟩

end Members

/-! ## Two variants -/

/-- The tokens of a text; none if it is no token tree. -/
def tokensOf (t : Text) : List Token :=
  (tokenize t).toOption.elim [] TokenStream.tokens

/-- Two fields: an annotation in front of nested generic arguments, and an arrow. -/
def twoFields : List Written :=
  [⟨tokensOf "#[b]", tokensOf "V<W<u8, u8>>", some (.atom [] .nowhere (.punct ',' false))⟩,
    ⟨[], tokensOf "fn(u8) -> V<T, U>", none⟩]

/-- Two variants: an annotation in front of one with these fields, and one with a value that has
angle brackets as operators. -/
def twoVariants : List Written :=
  [⟨tokensOf "#[a]",
      [.atom [] .nowhere (.ident "pub"), .atom [' '] .nowhere (.ident "A"),
        .group [] .nowhere .paren (twoFields.flatMap Written.tokens) []],
      some (.atom [] .nowhere (.punct ',' false))⟩,
    ⟨[], tokensOf "B = 1 << 2 < 3", some (.atom [] .nowhere (.punct ',' false))⟩]

/-- The variants and the fields are found. -/
theorem Members.asWritten_two_variants :
    Separated twoFields ∧ Separated twoVariants ∧
      ∃ g v fields, g.children = twoVariants.flatMap Written.tokens ∧
        AsWritten {} [] "variants" Variant.pieces twoVariants (variants {} [] g).members ∧
        (variants {} [] g).members[0]? = some v ∧ v.fields = some fields ∧
        AsWritten {} (Pointer.entry [] "variants" 0) "fields" Member.pieces twoFields
          fields.members := by
  have hfields : Separated twoFields :=
    .cons (Written.sound_iff.2 (by decide +kernel)) rfl
      (.last (Written.sound_iff.2 (by decide +kernel))
        (List.ne_nil_of_length_pos (by decide +kernel)))
  have hvariants : Separated twoVariants :=
    .cons (Written.sound_iff.2 (by decide +kernel)) rfl
      (.cons (Written.sound_iff.2 (by decide +kernel)) rfl .nil)
  obtain ⟨-, hread, hnested⟩ := @asWritten_of_separated {} []
    (.group [] .nowhere .brace (twoVariants.flatMap Written.tokens) []) _ hvariants rfl
  have hlength := hread.1
  obtain ⟨v, hv⟩ : ∃ v, (variants {} []
      (.group [] .nowhere .brace (twoVariants.flatMap Written.tokens) [])).members[0]? = some v :=
    ⟨_, List.getElem?_eq_getElem (by rw [hlength]; decide)⟩
  obtain ⟨fields, hfields', hinner⟩ := hnested 0 _ v rfl hv _ _ _ _ twoFields rfl rfl
    (.inl rfl) hfields rfl
  exact ⟨hfields, hvariants, _, v, fields, rfl, hread, hv, hfields', hinner⟩

end CondAttrs
