import CondAttrs.Proofs.Reading.SideBySide

/-!
# Attachment points

The attachment points of an item are listed by its pieces. Here they are listed by its
parts: the declaration itself, and the points of its members. The names that the points
have are read in step on both sides of a list of cells, so that an exchanged annotation
does not change them.

The name of a declaration may be a whole path, with the trivia in it. It is the same on
both sides of cells that are *steady*, which hold the same token up to its position.

## Main definitions

* `Roster.points`, `Shape.points`: the points of the members of a declaration.
* `Cell.Steady`: the cell holds the same token twice.

## Main statements

* `Item.points_declared`: the points of a declaration.
* `fieldName_cells`, `memberName_cells`, `Members.splitVariant_name`: names of members.
* `Shape.Likens.name`: the name of a declaration.
-/

namespace CondAttrs

/-! ## Names of members -/

theorem Token.ident?_hash {t : Token} (h : t.isPunct '#' = true) : t.ident? = none := by
  obtain ⟨_, _, _, rfl⟩ := isPunct_iff.1 h
  rfl

/-- Both sides start with the same identifier, if with any. -/
theorem Cell.head_ident {cells : List Cell} (hs : ∀ c ∈ cells, c.Sound) :
    (olds cells).head?.bind Token.ident? = (news cells).head?.bind Token.ident? := by
  cases cells with
  | nil => rfl
  | cons c cells =>
    have hc := hs c (by simp)
    cases c with
    | same t t' => exact Token.ident?_face hc
    | swap f f' =>
      obtain ⟨hash, more, b, ht, hh, -⟩ := hc.1.tokens_eq
      obtain ⟨hash', more', b', ht', hh', -⟩ := hc.2.tokens_eq
      simp [old, new, ht, ht', Token.ident?_hash hh, Token.ident?_hash hh']

/-- Fields have the same name on both sides. -/
theorem fieldName_cells {cells : List Cell} (hs : ∀ c ∈ cells, c.Sound) :
    fieldName (Cell.olds cells) = fieldName (Cell.news cells) := by
  obtain ⟨own, rest, rfl, hold, hnew⟩ := spanVisibility_cuts hs
  have hrest : ∀ c ∈ rest, c.Sound := fun c hc => hs c (List.mem_append_right _ hc)
  rw [fieldName, fieldName, hold, hnew, Cell.head_ident hrest]

theorem nameBehind_cons (word : Text) (t : Token) (rest : List Token) :
    nameBehind word (t :: rest) =
      if t.isWord word && rest.head?.any Token.isIdent then rest.head?.bind Token.ident?
      else nameBehind word rest := by
  cases rest with
  | nil => simp [nameBehind]
  | cons next rest => rfl

theorem nameBehind_marks (word : Text) {marks : List Token} (hmarks : ∀ t ∈ marks, t.isMark = true)
    (rest : List Token) : nameBehind word (marks ++ rest) = nameBehind word rest := by
  induction marks with
  | nil => rfl
  | cons t marks ih =>
    obtain ⟨ht, hmarks⟩ := List.forall_mem_cons.1 hmarks
    rw [List.cons_append, nameBehind_cons, (Token.halts_isWord word).mark ht, Bool.false_and]
    exact ih hmarks

theorem nameBehind_cells (word : Text) {cells : List Cell} (hs : ∀ c ∈ cells, c.Sound) :
    nameBehind word (Cell.olds cells) = nameBehind word (Cell.news cells) := by
  induction cells with
  | nil => rfl
  | cons c cells ih =>
    obtain ⟨hc, hrest⟩ := List.forall_mem_cons.1 hs
    cases c with
    | same t t' =>
      have hnext := Cell.head_any Token.halts_isIdent.selects hrest
      simp only [Cell.olds_cons, Cell.news_cons, Cell.old, Cell.new, List.singleton_append,
        nameBehind_cons, Token.isWord_face word hc, hnext, Cell.head_ident hrest, ih hrest]
    | swap f f' =>
      rw [Cell.olds_cons, Cell.news_cons, Cell.old, Cell.new, nameBehind_marks word hc.1.isMark,
        nameBehind_marks word hc.2.isMark, ih hrest]

/-- Trait members have the same name on both sides. -/
theorem memberName_cells {cells : List Cell} (hs : ∀ c ∈ cells, c.Sound) :
    memberName (Cell.olds cells) = memberName (Cell.news cells) := by
  simp only [memberName, nameBehind_cells _ hs, fieldName_cells hs]

theorem Members.splitVariant_name (tokens : List Token) :
    (splitVariant tokens).1 = fieldName tokens := by
  unfold splitVariant fieldName
  split
  · rename_i h
    rw [h]
    rfl
  · rename_i t rest h
    rw [h]
    cases ht : t.ident? <;> simp [ht]

/-! ## Names of declarations -/

namespace Cell

/-- The cell holds the same token on both sides, up to its position. -/
def Steady : Cell → Prop
  | same t t' => t'.forget = t.forget
  | swap _ _ => False

theorem Steady.sound {c : Cell} (h : c.Steady) : c.Sound := by
  cases c with
  | same t t' => exact (Token.face_of_forget h).symm
  | swap => cases h

theorem steady_refl (ts : List Token) : ∀ c ∈ refl ts, c.Steady := by
  intro c hc
  obtain ⟨t, -, rfl⟩ := List.mem_map.1 hc
  exact rfl

theorem forgetAll_news {cells : List Cell} (h : ∀ c ∈ cells, c.Steady) :
    Token.forgetAll (news cells) = Token.forgetAll (olds cells) := by
  induction cells with
  | nil => rfl
  | cons c cells ih =>
    obtain ⟨hc, hcells⟩ := List.forall_mem_cons.1 h
    rw [news_cons, olds_cons, Token.forgetAll_append, Token.forgetAll_append, ih hcells]
    cases c with
    | same t t' => simp only [old, new, Token.forgetAll_cons, show t'.forget = t.forget from hc]
    | swap => cases hc

/-- Lists that agree up to positions are the two sides of steady cells. -/
theorem exists_steady {ts ts' : List Token} (h : Token.forgetAll ts' = Token.forgetAll ts) :
    ∃ cells : List Cell, (∀ c ∈ cells, c.Steady) ∧ olds cells = ts ∧ news cells = ts' := by
  induction ts generalizing ts' with
  | nil =>
    rw [Token.forgetAll_nil, Token.forgetAll_eq_nil] at h
    exact ⟨[], by simp, rfl, by rw [h]; rfl⟩
  | cons t ts ih =>
    rw [← List.singleton_append] at h
    obtain ⟨first, rest, rfl, hfirst, hrest⟩ := Token.exists_append_of_forgetAll h
    obtain ⟨t', rfl, ht⟩ := Token.exists_singleton_of_forgetAll hfirst
    obtain ⟨cells, hcells, rfl, rfl⟩ := ih hrest
    exact ⟨.same t t' :: cells, List.forall_mem_cons.2 ⟨ht, hcells⟩, rfl, rfl⟩

end Cell

/-- What a declaration of a kind is called, by the tokens that name it. -/
def Kind.naming : Kind → List Token → Text
  | invocation, path => Text.strip (Token.renderAll path) ++ "!"
  | _, title => (title.head?.map Token.label).getD []

theorem Shape.name_eq (shape : Shape) : shape.name = shape.kind.naming shape.title := by
  cases shape <;> rfl

theorem Token.label_face {t t' : Token} (h : t.face = t'.face) : t.label = t'.label :=
  congr_face (fun _ _ _ _ _ => rfl) (fun _ _ _ _ _ _ _ _ _ => rfl) h

theorem Kind.naming_of_forgetAll (kind : Kind) {ts ts' : List Token}
    (h : Token.forgetAll ts' = Token.forgetAll ts) : kind.naming ts' = kind.naming ts := by
  have hhead : ts'.head?.map Token.label = ts.head?.map Token.label := by
    obtain ⟨cells, hcells, rfl, rfl⟩ := Cell.exists_steady h
    cases cells with
    | nil => rfl
    | cons c cells =>
      have hc := hcells c (by simp)
      cases c with
      | same t t' => exact congrArg some (Token.label_face (Token.face_of_forget hc))
      | swap => cases hc
  cases kind with
  | invocation => rw [naming, naming, Token.renderAll_of_forgetAll h]
  | _ => exact congrArg (·.getD []) hhead

/-- Declarations that are read off steady cells have the same name. -/
theorem Shape.Likens.name {front : List Cell} {shape shape' : Shape}
    (h : Likens front shape shape') (hfront : ∀ c ∈ front, c.Steady) :
    shape'.name = shape.name := by
  obtain ⟨named, hnamed, hold, hnew⟩ := h.title
  rw [name_eq, name_eq, h.kind, hold, hnew]
  exact Kind.naming_of_forgetAll _ (Cell.forgetAll_news fun c hc => hfront c (hnamed c hc))

/-! ## The points of an item -/

/-- The points of a variant: its own and those of its fields. -/
def Variant.points (v : Variant) : List Point :=
  v.point :: v.fields.elim [] fun fields => fields.members.map Member.point

/-- The points of the members of a declaration. -/
def Roster.points : Roster → List Point
  | .plain members => members.members.map Member.point
  | .variants members => members.members.flatMap Variant.points

/-- The points inside a declaration. -/
def Shape.points (shape : Shape) : List Point :=
  shape.roster.elim [] Roster.points

@[simp] theorem Piece.filterMap_ofTokens (ts : List Token) (pieces : List Piece) :
    (Piece.ofTokens ts :: pieces).filterMap Piece.point? = pieces.filterMap Piece.point? := rfl

theorem Members.filterMap_pieces {α : Type} {of : α → List Piece} {points : α → List Point}
    (h : ∀ a, (of a).filterMap Piece.point? = points a) (m : Members α) :
    (m.pieces of).filterMap Piece.point? = m.members.flatMap points := by
  simp only [pieces, List.filterMap_cons, List.filterMap_append, List.filterMap_flatMap, h,
    Piece.point?, List.filterMap_nil, List.append_nil]

theorem Member.filterMap_pieces (m : Member) : m.pieces.filterMap Piece.point? = [m.point] := rfl

theorem Variant.filterMap_pieces (v : Variant) :
    v.pieces.filterMap Piece.point? = v.points := by
  have hfields : ∀ fields : Members Member, (fields.pieces Member.pieces).filterMap Piece.point? =
      fields.members.map Member.point := fun fields => by
    rw [Members.filterMap_pieces Member.filterMap_pieces, List.map_eq_flatMap]
  have hown : [Piece.slot v.point, .ofTokens v.head].filterMap Piece.point? = [v.point] := rfl
  rw [pieces, points, List.filterMap_append, List.filterMap_append, hown, Piece.filterMap_ofTokens,
    List.filterMap_nil, List.append_nil]
  cases v.fields with
  | none => rfl
  | some fields => exact congrArg _ (hfields fields)

theorem Roster.filterMap_pieces (r : Roster) : r.pieces.filterMap Piece.point? = r.points := by
  cases r with
  | plain members =>
    rw [pieces, Members.filterMap_pieces Member.filterMap_pieces, points, List.map_eq_flatMap]
  | variants members => exact Members.filterMap_pieces Variant.filterMap_pieces members

theorem Shape.filterMap_pieces (shape : Shape) :
    shape.pieces.filterMap Piece.point? = shape.points := by
  have hplain : ∀ m : Members Member,
      (m.pieces Member.pieces).filterMap Piece.point? = Roster.points (.plain m) :=
    fun m => Roster.filterMap_pieces (.plain m)
  have hvariants : ∀ m : Members Variant,
      (m.pieces Variant.pieces).filterMap Piece.point? = Roster.points (.variants m) :=
    fun m => Roster.filterMap_pieces (.variants m)
  cases shape with
  | record keyword name generics body =>
    cases body <;>
      simp only [pieces, points, roster, RecordBody.pieces, Piece.filterMap_ofTokens,
        List.filterMap_append, List.filterMap_nil, List.append_nil, hplain, Option.elim]
  | _ =>
    simp only [pieces, points, roster, Piece.filterMap_ofTokens, List.filterMap_nil, hplain,
      hvariants, Option.elim]

/-- The points of a declaration are its own and those inside. -/
theorem Item.points_declared (d : Declaration) :
    (Item.declared d).points = d.point :: d.shape.points := by
  rw [points, pieces, Declaration.pieces, ← Shape.filterMap_pieces]
  rfl

end CondAttrs
