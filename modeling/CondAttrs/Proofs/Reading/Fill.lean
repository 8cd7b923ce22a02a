import CondAttrs.Declaration.Splice
import CondAttrs.Proofs.Lexical.Tree
import CondAttrs.Proofs.Reading.Chunk
import CondAttrs.Proofs.Reading.Step

/-!
# Items filled in again

An item keeps all of its tokens, with a place for every annotation. `Item.fill` puts
tokens into these places and gives a token list again. Filled with their own tokens, the
items of a file are the tokens of the file, up to the positions of groups, which an item
does not keep; filled with other tokens, they are what the file becomes.

Nothing is said here about what the other tokens are. Whatever they are, the text of a
filled item is the text of its pieces, with the texts of the tokens in the slots.

## Main definitions

* `Form.Proper`: the forms that stand at attachment points.
* `Shape.fill`, `Item.fill`: the tokens of an item, its annotations replaced.
* `Item.attachments`: the annotations of an item in order.

## Main statements

* `Item.render_fill`: the text of a filled item.
* `Item.parseAll_tokens`: the items of a file, filled with their own annotations, are the
  tokens of the file.
* `Item.parseAll_scanned`: the annotations of a file are made of proper forms.
-/

namespace CondAttrs

/-! ## Forms at attachment points -/

namespace Form

/-- The form is a documentation comment or an attribute with its marks. -/
def Proper (f : Form) : Prop :=
  f.isDoc = true ∨ f.IsAttribute

theorem proper_of_read {tokens rest : List Token} {f : Form} (h : read tokens = some (f, rest)) :
    f.Proper := by
  unfold read at h
  split at h
  · simp only [Option.some.injEq, Prod.mk.injEq] at h
    obtain ⟨rfl, rfl⟩ := h
    exact .inl rfl
  · rename_i hash second more _
    split at h
    · cases h
    rename_i hhash
    have hh : hash.isPunct '#' = true := by simpa using hhash
    split at h
    · rename_i hbracket
      simp only [Option.some.injEq, Prod.mk.injEq] at h
      obtain ⟨rfl, rfl⟩ := h
      exact .inr ⟨hh, by simp, hbracket⟩
    split at h
    · cases h
    rename_i hbang
    have hb : second.isPunct '!' = true := by simpa using hbang
    split at h
    · split at h
      · rename_i hbracket
        simp only [Option.some.injEq, Prod.mk.injEq] at h
        obtain ⟨rfl, rfl⟩ := h
        exact .inr ⟨hh, by simpa using hb, hbracket⟩
      · cases h
    · cases h
  · cases h

/-- A proper form is read back in front of anything. -/
theorem Proper.read {f : Form} (h : f.Proper) (rest : List Token) :
    Form.read (f.tokens ++ rest) = some (f, rest) := by
  rcases h with hdoc | hattr
  · cases f with
    | doc => rfl
    | marked => cases hdoc
    | bare => cases hdoc
  · exact hattr.read rest

theorem readAll_spec (tokens : List Token) :
    (∀ f ∈ (readAll tokens).1, f.Proper) ∧ read (readAll tokens).2 = none := by
  fun_induction readAll tokens with
  | case1 tokens h => exact ⟨by simp, h⟩
  | case2 tokens f rest h ih =>
    exact ⟨List.forall_mem_cons.2 ⟨proper_of_read h, ih.1⟩, ih.2⟩

/-- Proper forms are read back in front of what is none. -/
theorem readAll_of_proper {forms : List Form} {rest : List Token} (h : ∀ f ∈ forms, f.Proper)
    (hrest : read rest = none) : readAll (forms.flatMap tokens ++ rest) = (forms, rest) := by
  induction forms with
  | nil =>
    rw [List.flatMap_nil, List.nil_append, readAll]
    split
    · rfl
    · rename_i hread
      rw [hrest] at hread
      cases hread
  | cons f forms ih =>
    obtain ⟨hf, hforms⟩ := List.forall_mem_cons.1 h
    rw [List.flatMap_cons, List.append_assoc, readAll]
    split
    · rename_i hread
      rw [hf.read] at hread
      cases hread
    · rename_i hread
      rw [hf.read] at hread
      cases hread
      rw [ih hforms]

theorem readAll_flatMap_append {forms : List Form} (h : ∀ f ∈ forms, f.Proper)
    (rest : List Token) : readAll (forms.flatMap tokens ++ rest) =
      (forms ++ (readAll rest).1, (readAll rest).2) := by
  obtain ⟨hproper, hnone⟩ := readAll_spec rest
  have hall : ∀ f ∈ forms ++ (readAll rest).1, f.Proper := fun f hf =>
    (List.mem_append.1 hf).elim (h f) (hproper f)
  have hread := readAll_of_proper hall hnone
  rwa [List.flatMap_append, List.append_assoc, readAll_append] at hread

end Form

/-! ## Annotations -/

theorem Attribute.form_of_ofForm {s : Settings} {pointer : Text} {f : Form} {a : Attribute}
    (h : Attribute.ofForm s pointer f = .ok a) : a.form = f := by
  unfold Attribute.ofForm at h
  split at h
  · cases h
    rfl
  · split at h
    · split at h
      · split at h
        · cases h
        · cases h
          rfl
      · cases h
    · cases h

namespace Attachment

@[simp] theorem form_ofForm (s : Settings) (pointer : Text) (f : Form) :
    (ofForm s pointer f).form = f := by
  unfold ofForm
  split
  · rename_i h
    exact Attribute.form_of_ofForm h
  · rfl

/-- The annotation is what a proper form is. -/
def Scanned (s : Settings) (a : Attachment) : Prop :=
  ∃ pointer f, f.Proper ∧ a = ofForm s pointer f

theorem flatMap_tokens_ofForms (s : Settings) (pointer : Text) (forms : List Form) :
    (ofForms s pointer forms).flatMap tokens = forms.flatMap Form.tokens := by
  have hforms : (ofForms s pointer forms).map form = forms := by
    rw [ofForms]
    apply List.ext_getElem <;> simp
  calc (ofForms s pointer forms).flatMap tokens
      = ((ofForms s pointer forms).map form).flatMap Form.tokens := by rw [List.flatMap_map]; rfl
    _ = forms.flatMap Form.tokens := by rw [hforms]

theorem scanned_of_mem {s : Settings} {pointer : Text} {forms : List Form} {a : Attachment}
    (hforms : ∀ f ∈ forms, f.Proper) (h : a ∈ ofForms s pointer forms) : a.Scanned s := by
  obtain ⟨index, hindex, rfl⟩ := List.mem_mapIdx.1 h
  exact ⟨_, _, hforms _ (List.getElem_mem hindex), rfl⟩

theorem scan_tokens (s : Settings) (pointer : Text) (tokens : List Token) :
    (scan s pointer tokens).1.flatMap Attachment.tokens ++ (scan s pointer tokens).2 = tokens := by
  rw [scan, flatMap_tokens_ofForms, Form.readAll_append]

theorem scan_scanned (s : Settings) (pointer : Text) (tokens : List Token) :
    ∀ a ∈ (scan s pointer tokens).1, a.Scanned s :=
  fun _ => scanned_of_mem (Form.readAll_spec tokens).1

/-- An accepted annotation is what its form is read as. -/
theorem Scanned.ofForm_eq {s : Settings} {attr : Attribute} (h : Scanned s (accepted attr)) :
    attr.form.Proper ∧ ∃ pointer, Attribute.ofForm s pointer attr.form = .ok attr := by
  obtain ⟨pointer, f, hproper, heq⟩ := h
  unfold ofForm at heq
  split at heq
  · rename_i hattr
    cases heq
    obtain rfl := Attribute.form_of_ofForm hattr
    exact ⟨hproper, pointer, hattr⟩
  · cases heq

end Attachment

/-! ## Filling -/

section Fill

variable (f : Attachment → List Token)

/-- A member with its annotations replaced. -/
def Member.fill (m : Member) : List Token :=
  m.point.attachments.flatMap f ++ m.body

/-- The group of members. Its position is not known any more. -/
def Members.fill {α : Type} (of : α → List Token) (m : Members α) : Token :=
  .group m.leading .nowhere m.delimiter (m.members.flatMap of) m.closeLeading

/-- A variant with its annotations and those of its fields replaced. -/
def Variant.fill (v : Variant) : List Token :=
  v.point.attachments.flatMap f ++ v.head ++
    ((v.fields.map (Members.fill (Member.fill f))).toList ++ v.tail)

/-- The group of members, their annotations replaced. -/
def Roster.fill : Roster → Token
  | .plain members => members.fill (Member.fill f)
  | .variants members => members.fill (Variant.fill f)

/-- A shape with the annotations of its members replaced. -/
def Shape.fill (shape : Shape) : List Token :=
  shape.before ++ (shape.roster.map (Roster.fill f)).toList ++ shape.after

/-- An item with its annotations replaced. -/
def Item.fill : Item → List Token
  | .declared d => d.attachments.flatMap f ++ d.visibility ++ d.shape.fill f
  | .enclosing _ attachments => attachments.flatMap f
  | .unsupported tokens _ => tokens

end Fill

/-! ## The text of a filled item -/

/-- The parts of the members, in order. -/
def Roster.pieces : Roster → List Piece
  | .plain members => members.pieces Member.pieces
  | .variants members => members.pieces Variant.pieces

/-- The text of a piece, its annotations replaced. -/
def Piece.fill (g : Attachment → Text) : Piece → Text
  | .fixed text => text
  | .slot point => point.attachments.flatMap g

section Render

variable {f : Attachment → List Token} {g : Attachment → Text}

theorem Token.renderAll_flatMap {α : Type} (f : α → List Token) (l : List α) :
    renderAll (l.flatMap f) = l.flatMap fun a => renderAll (f a) := by
  induction l with
  | nil => rfl
  | cons a l ih => rw [List.flatMap_cons, renderAll_append, ih, List.flatMap_cons]

theorem Token.renderAll_singleton (t : Token) : renderAll [t] = t.render := by
  simp [renderAll]

theorem Member.render_fill (h : ∀ a, Token.renderAll (f a) = g a) (m : Member) :
    Token.renderAll (m.fill f) = m.pieces.flatMap (Piece.fill g) := by
  simp only [fill, pieces, Token.renderAll_append, Token.renderAll_flatMap, h, List.flatMap_cons,
    List.flatMap_nil, Piece.fill, Piece.ofTokens, List.append_nil]

theorem Members.render_fill {α : Type} {of : α → List Token} {pieces : α → List Piece}
    (h : ∀ a, Token.renderAll (of a) = (pieces a).flatMap (Piece.fill g)) (m : Members α) :
    (m.fill of).render = (m.pieces pieces).flatMap (Piece.fill g) := by
  simp only [fill, Members.pieces, Token.render, Token.renderAll_flatMap, h, List.flatMap_cons,
    List.flatMap_append, List.flatMap_nil, Piece.fill, List.append_nil, List.append_assoc,
    List.singleton_append, List.flatMap_assoc]

theorem Variant.render_fill (h : ∀ a, Token.renderAll (f a) = g a) (v : Variant) :
    Token.renderAll (v.fill f) = v.pieces.flatMap (Piece.fill g) := by
  have hfields : Token.renderAll (v.fields.map (Members.fill (Member.fill f))).toList =
      (v.fields.elim [] (Members.pieces Member.pieces)).flatMap (Piece.fill g) := by
    cases v.fields with
    | none => rfl
    | some fields =>
      simp only [Option.map_some, Option.toList_some, Token.renderAll_singleton, Option.elim_some]
      exact Members.render_fill (Member.render_fill h) fields
  simp only [fill, pieces, Token.renderAll_append, Token.renderAll_flatMap, h, hfields,
    List.flatMap_append, List.flatMap_cons, List.flatMap_nil, Piece.fill, Piece.ofTokens,
    List.append_nil, List.append_assoc]

theorem Roster.render_fill (h : ∀ a, Token.renderAll (f a) = g a) (r : Roster) :
    (r.fill f).render = r.pieces.flatMap (Piece.fill g) := by
  cases r with
  | plain members => exact Members.render_fill (Member.render_fill h) members
  | variants members => exact Members.render_fill (Variant.render_fill h) members

/-- A shape is what stands before its members, the members, and what stands behind. -/
theorem Shape.pieces_fill (g : Attachment → Text) (shape : Shape) :
    shape.pieces.flatMap (Piece.fill g) =
      Token.renderAll shape.before ++
        ((shape.roster.elim [] Roster.pieces).flatMap (Piece.fill g) ++
          Token.renderAll shape.after) := by
  cases shape with
  | record keyword name generics body =>
    cases body <;>
      simp only [pieces, before, roster, after, Roster.pieces, RecordBody.pieces, Option.elim,
        List.flatMap_cons, List.flatMap_append, List.flatMap_nil, Piece.fill, Piece.ofTokens,
        Token.renderAll_append, Token.renderAll, List.append_nil, List.append_assoc]
  | _ =>
    simp only [pieces, before, roster, after, Roster.pieces, Option.elim, List.flatMap_cons,
      List.flatMap_nil, Piece.fill, Piece.ofTokens, Token.renderAll, List.append_nil]

theorem Shape.render_fill (h : ∀ a, Token.renderAll (f a) = g a) (shape : Shape) :
    Token.renderAll (shape.fill f) = shape.pieces.flatMap (Piece.fill g) := by
  have hroster : Token.renderAll (shape.roster.map (Roster.fill f)).toList =
      (shape.roster.elim [] Roster.pieces).flatMap (Piece.fill g) := by
    cases shape.roster with
    | none => rfl
    | some r =>
      rw [Option.map_some, Option.toList_some, Token.renderAll_singleton]
      exact Roster.render_fill h r
  rw [pieces_fill, fill, Token.renderAll_append, Token.renderAll_append, hroster,
    List.append_assoc]

/-- The text of a filled item is the text of its pieces. -/
theorem Item.render_fill (h : ∀ a, Token.renderAll (f a) = g a) (i : Item) :
    Token.renderAll (i.fill f) = i.pieces.flatMap (Piece.fill g) := by
  cases i with
  | declared d =>
    simp only [fill, pieces, Declaration.pieces, Declaration.point, Token.renderAll_append,
      Token.renderAll_flatMap, h, Shape.render_fill h, List.flatMap_cons, Piece.fill,
      Piece.ofTokens, List.append_assoc]
  | enclosing pointer attachments =>
    simp only [fill, pieces, Token.renderAll_flatMap, h, List.flatMap_cons, List.flatMap_nil,
      Piece.fill, List.append_nil]
  | unsupported tokens d =>
    simp only [fill, pieces, List.flatMap_cons, List.flatMap_nil, Piece.fill, Piece.ofTokens,
      List.append_nil]

/-- An item is lowered by filling its pieces with its lowered annotations. -/
theorem Item.lower_eq_fill (s : Settings) (i : Item) :
    i.lower s = i.pieces.flatMap (Piece.fill (Attachment.lower s)) := by
  have hpiece : Piece.lower s = Piece.fill (Attachment.lower s) := by
    funext p
    cases p <;> rfl
  rw [lower, hpiece]

end Render

/-! ## Annotations of an item -/

/-- The annotations of a piece. -/
def Piece.attachments : Piece → List Attachment
  | .fixed _ => []
  | .slot point => point.attachments

/-- The annotations of an item, in order. -/
def Item.attachments (i : Item) : List Attachment :=
  i.points.flatMap Point.attachments

theorem Item.attachments_eq (i : Item) : i.attachments = i.pieces.flatMap Piece.attachments := by
  rw [attachments, points]
  induction i.pieces with
  | nil => rfl
  | cons p pieces ih =>
    cases p with
    | fixed text => rw [List.filterMap_cons_none rfl, ih]; rfl
    | slot point =>
      have hpoint : Piece.point? (.slot point) = some point := rfl
      rw [List.filterMap_cons_some hpoint, List.flatMap_cons, ih]
      rfl

@[simp] theorem Item.attachments_enclosing (pointer : Text) (attachments : List Attachment) :
    (Item.enclosing pointer attachments).attachments = attachments := by
  simp [attachments_eq, pieces, Piece.attachments]

@[simp] theorem Item.attachments_unsupported (tokens : List Token) (d : Diagnostic) :
    (Item.unsupported tokens d).attachments = [] := by
  simp [attachments_eq, pieces, Piece.attachments, Piece.ofTokens]

theorem Item.attachments_declared (d : Declaration) :
    (Item.declared d).attachments =
      d.attachments ++ d.shape.pieces.flatMap Piece.attachments := by
  simp [attachments_eq, pieces, Declaration.pieces, Piece.attachments, Piece.ofTokens,
    Declaration.point]

theorem Shape.pieces_attachments (shape : Shape) :
    shape.pieces.flatMap Piece.attachments =
      (shape.roster.elim [] Roster.pieces).flatMap Piece.attachments := by
  cases shape with
  | record keyword name generics body =>
    cases body <;>
      simp only [pieces, roster, Roster.pieces, RecordBody.pieces, Option.elim,
        List.flatMap_cons, List.flatMap_append, List.flatMap_nil, Piece.attachments,
        Piece.ofTokens, List.append_nil, List.nil_append]
  | _ =>
    simp only [pieces, roster, Roster.pieces, Option.elim, List.flatMap_cons, List.flatMap_nil,
      Piece.attachments, Piece.ofTokens, List.append_nil, List.nil_append]

theorem Member.mem_attachments {m : Member} {a : Attachment} :
    a ∈ m.pieces.flatMap Piece.attachments ↔ a ∈ m.point.attachments := by
  simp [pieces, Piece.attachments, Piece.ofTokens]

theorem Members.mem_attachments {α : Type} {of : α → List Piece} {m : Members α} {a : Attachment} :
    a ∈ (m.pieces of).flatMap Piece.attachments ↔
      ∃ x ∈ m.members, a ∈ (of x).flatMap Piece.attachments := by
  simp [pieces, Piece.attachments, List.flatMap_assoc]

theorem Variant.mem_attachments {v : Variant} {a : Attachment} :
    a ∈ v.pieces.flatMap Piece.attachments ↔ a ∈ v.point.attachments ∨
      ∃ fields ∈ v.fields, a ∈ (fields.pieces Member.pieces).flatMap Piece.attachments := by
  cases h : v.fields <;> simp [pieces, h, Piece.attachments, Piece.ofTokens]

theorem Item.mem_attachments_declared {d : Declaration} {a : Attachment} :
    a ∈ (Item.declared d).attachments ↔ a ∈ d.attachments ∨
      ∃ roster ∈ d.shape.roster, a ∈ roster.pieces.flatMap Piece.attachments := by
  rw [attachments_eq, pieces, Declaration.pieces, List.flatMap_cons, List.flatMap_cons,
    List.mem_append, List.mem_append, Shape.pieces_attachments]
  cases h : d.shape.roster <;> simp [Piece.attachments, Piece.ofTokens, Declaration.point]

/-! ## Properties of filled items -/

/-- What holds of both parts of a token list and of the inside of its groups holds of the
annotations of a filled item if it holds of the item. -/
structure Inherited (holds : List Token → Prop) : Prop where
  left : ∀ {first second}, holds (first ++ second) → holds first
  right : ∀ {first second}, holds (first ++ second) → holds second
  inside : ∀ {leading pos d children closeLeading},
    holds [.group leading pos d children closeLeading] → holds children

namespace Inherited

variable {holds : List Token → Prop} (h : Inherited holds) {f : Attachment → List Token}

include h

theorem flatMap {α : Type} {of : α → List Token} {l : List α} {a : α}
    (hl : holds (l.flatMap of)) (ha : a ∈ l) : holds (of a) := by
  obtain ⟨first, second, rfl⟩ := List.append_of_mem ha
  rw [List.flatMap_append, List.flatMap_cons] at hl
  exact h.left (h.right hl)

theorem member {m : Member} {a : Attachment} (hm : holds (m.fill f))
    (ha : a ∈ m.pieces.flatMap Piece.attachments) : holds (f a) :=
  h.flatMap (h.left hm) (Member.mem_attachments.1 ha)

theorem members {α : Type} {of : α → List Token} {pieces : α → List Piece} {m : Members α}
    {a : Attachment}
    (hof : ∀ x, holds (of x) → a ∈ (pieces x).flatMap Piece.attachments → holds (f a))
    (hm : holds [m.fill of]) (ha : a ∈ (m.pieces pieces).flatMap Piece.attachments) :
    holds (f a) := by
  obtain ⟨x, hx, hax⟩ := Members.mem_attachments.1 ha
  exact hof x (h.flatMap (h.inside hm) hx) hax

theorem variant {v : Variant} {a : Attachment} (hv : holds (v.fill f))
    (ha : a ∈ v.pieces.flatMap Piece.attachments) : holds (f a) := by
  rcases Variant.mem_attachments.1 ha with ha | ⟨fields, hfields, ha⟩
  · exact h.flatMap (h.left (h.left hv)) ha
  · have hgroup := h.left (h.right hv)
    rw [hfields] at hgroup
    exact h.members (fun x hx hax => h.member hx hax) hgroup ha

theorem roster {r : Roster} {a : Attachment} (hr : holds [r.fill f])
    (ha : a ∈ r.pieces.flatMap Piece.attachments) : holds (f a) := by
  cases r with
  | plain members => exact h.members (fun x hx hax => h.member hx hax) hr ha
  | variants members => exact h.members (fun x hx hax => h.variant hx hax) hr ha

/-- The annotations of an item inherit what holds of the filled item. -/
theorem item {i : Item} {a : Attachment} (hi : holds (i.fill f)) (ha : a ∈ i.attachments) :
    holds (f a) := by
  cases i with
  | declared d =>
    rcases Item.mem_attachments_declared.1 ha with ha | ⟨r, hr, ha⟩
    · exact h.flatMap (h.left (h.left hi)) ha
    · have hshape := h.right (h.left (h.right hi))
      rw [hr] at hshape
      exact h.roster hshape ha
  | enclosing pointer attachments =>
    rw [Item.attachments_enclosing] at ha
    exact h.flatMap hi ha
  | unsupported tokens d =>
    rw [Item.attachments_unsupported] at ha
    cases ha

end Inherited

/-- A relation of token lists that is kept under composition and between brackets relates
items that are filled with related tokens. -/
structure Compatible (rel : List Token → List Token → Prop) : Prop where
  refl : ∀ ts, rel ts ts
  append : ∀ {first first' second second'}, rel first first' → rel second second' →
    rel (first ++ second) (first' ++ second')
  group : ∀ {leading pos d children children' closeLeading}, rel children children' →
    rel [.group leading pos d children closeLeading] [.group leading pos d children' closeLeading]

namespace Compatible

variable {rel : List Token → List Token → Prop} (h : Compatible rel)
  {f f' : Attachment → List Token}

include h

theorem flatMap {α : Type} {of of' : α → List Token} {l : List α}
    (hl : ∀ a ∈ l, rel (of a) (of' a)) : rel (l.flatMap of) (l.flatMap of') := by
  induction l with
  | nil => exact h.refl []
  | cons a l ih =>
    obtain ⟨ha, hl⟩ := List.forall_mem_cons.1 hl
    rw [List.flatMap_cons, List.flatMap_cons]
    exact h.append ha (ih hl)

theorem member {m : Member} (hm : ∀ a ∈ m.pieces.flatMap Piece.attachments, rel (f a) (f' a)) :
    rel (m.fill f) (m.fill f') :=
  h.append (h.flatMap fun a ha => hm a (Member.mem_attachments.2 ha)) (h.refl _)

theorem members {α : Type} {of of' : α → List Token} {pieces : α → List Piece} {m : Members α}
    (hof : ∀ x, (∀ a ∈ (pieces x).flatMap Piece.attachments, rel (f a) (f' a)) →
      rel (of x) (of' x))
    (hm : ∀ a ∈ (m.pieces pieces).flatMap Piece.attachments, rel (f a) (f' a)) :
    rel [m.fill of] [m.fill of'] :=
  h.group (h.flatMap fun x hx => hof x fun a ha =>
    hm a (Members.mem_attachments.2 ⟨x, hx, ha⟩))

theorem optionalFields {fields : Option (Members Member)}
    (hfields : ∀ m ∈ fields, ∀ a ∈ (m.pieces Member.pieces).flatMap Piece.attachments,
      rel (f a) (f' a)) :
    rel (fields.map (Members.fill (Member.fill f))).toList
      (fields.map (Members.fill (Member.fill f'))).toList := by
  cases fields with
  | none => exact h.refl []
  | some m => exact h.members (fun x hx => h.member hx) fun a ha => hfields m rfl a ha

theorem variant {v : Variant} (hv : ∀ a ∈ v.pieces.flatMap Piece.attachments, rel (f a) (f' a)) :
    rel (v.fill f) (v.fill f') := by
  have hfields := h.optionalFields fun m hm a ha =>
    hv a (Variant.mem_attachments.2 (.inr ⟨m, hm, ha⟩))
  have hown : rel (v.point.attachments.flatMap f) (v.point.attachments.flatMap f') :=
    h.flatMap fun a ha => hv a (Variant.mem_attachments.2 (.inl ha))
  exact h.append (h.append hown (h.refl _)) (h.append hfields (h.refl _))

theorem roster {r : Roster} (hr : ∀ a ∈ r.pieces.flatMap Piece.attachments, rel (f a) (f' a)) :
    rel [r.fill f] [r.fill f'] := by
  cases r with
  | plain members => exact h.members (fun x hx => h.member hx) hr
  | variants members => exact h.members (fun x hx => h.variant hx) hr

theorem shape {shape : Shape}
    (hshape : ∀ r ∈ shape.roster, ∀ a ∈ r.pieces.flatMap Piece.attachments, rel (f a) (f' a)) :
    rel (shape.fill f) (shape.fill f') := by
  have hroster : rel (shape.roster.map (Roster.fill f)).toList
      (shape.roster.map (Roster.fill f')).toList := by
    cases hr : shape.roster with
    | none => exact h.refl []
    | some r => exact h.roster (hshape r hr)
  exact h.append (h.append (h.refl _) hroster) (h.refl _)

/-- Items filled with related tokens are related. -/
theorem item {i : Item} (hi : ∀ a ∈ i.attachments, rel (f a) (f' a)) :
    rel (i.fill f) (i.fill f') := by
  cases i with
  | declared d =>
    have hown : rel (d.attachments.flatMap f) (d.attachments.flatMap f') :=
      h.flatMap fun a ha => hi a (Item.mem_attachments_declared.2 (.inl ha))
    have hshape : rel (d.shape.fill f) (d.shape.fill f') := h.shape fun r hr a ha =>
      hi a (Item.mem_attachments_declared.2 (.inr ⟨r, hr, ha⟩))
    exact h.append (h.append hown (h.refl _)) hshape
  | enclosing pointer attachments =>
    rw [Item.attachments_enclosing] at hi
    exact h.flatMap hi
  | unsupported tokens d => exact h.refl tokens

end Compatible

/-! ## The tokens of a shape -/

/-- A shape that has been read consists of the tokens that were taken, and its members
are read from a group among them. -/
theorem Shape.take_tokens {s : Settings} {pointer : Text} {kind : Kind} {tokens rest : List Token}
    {shape : Shape} (h : Shape.take s pointer kind tokens = .ok (shape, rest)) :
    (shape.roster = none ∧ shape.after = [] ∧ tokens = shape.before ++ rest) ∨
      ∃ (reading : Reading) (g : Token), g.isGroup reading.delimiter = true ∧
        shape.roster = some (reading.read s pointer g) ∧
        tokens = shape.before ++ g :: (shape.after ++ rest) := by
  rcases Shape.paired_take s pointer pointer kind (Cell.refl tokens) (Cell.sound_refl tokens) with
    ⟨own, more, a, a', hcells, ho, hn, htwin⟩ | ⟨e, e', ho, hn⟩
  · rw [Cell.olds_refl, h] at ho
    cases ho
    have htokens : tokens = Cell.olds own ++ Cell.olds more := by
      rw [← Cell.olds_append, ← hcells, Cell.olds_refl]
    rw [List.nil_append] at htwin
    cases htwin with
    | solid hlikens hroster _ =>
      exact .inl ⟨hroster, Shape.after_of_roster hroster, by rw [hlikens.before, htokens]⟩
    | listed reading hlikens hgroup hroster _ hafter _ =>
      refine .inr ⟨reading, _, hgroup, hroster, ?_⟩
      rw [hlikens.before, hafter, htokens]
      simp [Cell.old]
  · rw [Cell.olds_refl, h] at ho
    cases ho

theorem Token.forgetAll_mapIdx {α : Type} {of : α → List Token}
    {read : Nat → List Token → α} (h : ∀ index chunk, forgetAll (of (read index chunk)) = forgetAll chunk)
    (chunks : List (List Token)) :
    forgetAll ((chunks.mapIdx read).flatMap of) = forgetAll chunks.flatten := by
  induction chunks generalizing read with
  | nil => rfl
  | cons chunk chunks ih =>
    rw [List.mapIdx_cons, List.flatMap_cons, List.flatten_cons, forgetAll_append, forgetAll_append,
      h, ih fun index chunk => h (index + 1) chunk]

/-- Members filled so that every one gives its chunk again are the group they come from. -/
theorem Members.forget_fill {α : Type} {of : α → List Token} {g : Token} {d : Delimiter}
    {split : List Token → List (List Token)} {read : Nat → Text → List Token → α}
    (hg : g.isGroup d = true) (hsplit : Chunk.SplitsInStep split) (pointer name : Text)
    (h : ∀ index pointer chunk,
      Token.forgetAll (of (read index pointer chunk)) = Token.forgetAll chunk) :
    ((ofChunks g d pointer name (split g.children) read).fill of).forget = g.forget := by
  obtain ⟨leading, pos, children, closeLeading, rfl⟩ := Token.isGroup_iff.1 hg
  have hall := @Token.forgetAll_mapIdx α of
    (fun index chunk => read index (Pointer.entry pointer name index) chunk)
    (fun index chunk => h index _ chunk) (split children)
  rw [hsplit.flatten] at hall
  simp only [fill, ofChunks, Token.forget, Token.leading, Token.closeLeading, Token.children, hall]

theorem Members.splitVariant_append (tokens : List Token) :
    (splitVariant tokens).2.1 ++ (splitVariant tokens).2.2 = tokens := by
  have happend := spanVisibility_append tokens
  unfold splitVariant
  split
  · rename_i hv
    simpa [hv] using happend
  · rename_i hv
    rw [hv] at happend
    split
    · simpa using happend
    · exact happend

namespace Members

variable (s : Settings)

theorem forget_fill_fields (pointer : Text) {g : Token} {d : Delimiter}
    (hg : g.isGroup d = true) :
    ((fields s pointer g d).fill (Member.fill Attachment.tokens)).forget = g.forget := by
  refine forget_fill hg Chunk.splitFields_inStep pointer _ fun index pointer chunk => ?_
  exact congrArg Token.forgetAll (Attachment.scan_tokens s pointer chunk)

theorem forget_fill_traitMembers (pointer : Text) {g : Token} (hg : g.isGroup .brace = true) :
    ((traitMembers s pointer g).fill (Member.fill Attachment.tokens)).forget = g.forget := by
  refine forget_fill hg Chunk.splitMembers_inStep pointer _ fun index pointer chunk => ?_
  exact congrArg Token.forgetAll (Attachment.scan_tokens s pointer chunk)

theorem forgetAll_variantFields (pointer : Text) (tokens : List Token) :
    Token.forgetAll (((variantFields s pointer tokens).1.map
        (Members.fill (Member.fill Attachment.tokens))).toList ++
      (variantFields s pointer tokens).2) = Token.forgetAll tokens := by
  cases tokens with
  | nil => rfl
  | cons t rest =>
    simp only [variantFields]
    split
    · rename_i ht
      simp [Token.forgetAll, forget_fill_fields s pointer ht]
    · split
      · rename_i ht
        simp [Token.forgetAll, forget_fill_fields s pointer ht]
      · rfl

/-- The variant that a chunk is. -/
def variantOf (pointer : Text) (chunk : List Token) : Variant :=
  let (attachments, body) := Attachment.scan s pointer chunk
  let (name, head, rest) := splitVariant body
  let (fields, tail) := variantFields s pointer rest
  ⟨⟨.variant, name, pointer, attachments⟩, head, fields, tail⟩

theorem variants_eq (pointer : Text) (g : Token) :
    variants s pointer g =
      ofChunks g .brace pointer "variants" (Chunk.splitFields g.children)
        fun _ pointer chunk => variantOf s pointer chunk := rfl

theorem forgetAll_fill_variantOf (pointer : Text) (chunk : List Token) :
    Token.forgetAll ((variantOf s pointer chunk).fill Attachment.tokens) =
      Token.forgetAll chunk := by
  have hscan := Attachment.scan_tokens s pointer chunk
  have hvariant := splitVariant_append (Attachment.scan s pointer chunk).2
  have hfields := forgetAll_variantFields s pointer
    (splitVariant (Attachment.scan s pointer chunk).2).2.2
  rw [← hvariant] at hscan
  rw [← congrArg Token.forgetAll hscan]
  simp only [variantOf, Variant.fill, List.append_assoc]
  rw [Token.forgetAll_append, Token.forgetAll_append, hfields, ← Token.forgetAll_append,
    ← Token.forgetAll_append]

theorem forget_fill_variants (pointer : Text) {g : Token} (hg : g.isGroup .brace = true) :
    ((variants s pointer g).fill (Variant.fill Attachment.tokens)).forget = g.forget := by
  rw [variants_eq]
  exact forget_fill hg Chunk.splitFields_inStep pointer _ fun _ pointer chunk =>
    forgetAll_fill_variantOf s pointer chunk

end Members

/-- Members filled with their own annotations are the group they are read from. -/
theorem Reading.forget_fill_read (s : Settings) (pointer : Text) {reading : Reading} {g : Token}
    (hg : g.isGroup reading.delimiter = true) :
    ((reading.read s pointer g).fill Attachment.tokens).forget = g.forget := by
  cases reading with
  | fields d => exact Members.forget_fill_fields s pointer hg
  | variants => exact Members.forget_fill_variants s pointer hg
  | traitMembers => exact Members.forget_fill_traitMembers s pointer hg

/-- A shape filled with its own annotations, and the rest, make up the tokens. -/
theorem Shape.forgetAll_fill {s : Settings} {pointer : Text} {kind : Kind}
    {tokens rest : List Token} {shape : Shape}
    (h : Shape.take s pointer kind tokens = .ok (shape, rest)) :
    Token.forgetAll (shape.fill Attachment.tokens ++ rest) = Token.forgetAll tokens := by
  rcases Shape.take_tokens h with ⟨hroster, hafter, rfl⟩ | ⟨reading, g, hg, hroster, rfl⟩
  · rw [Shape.fill, hroster, hafter]
    simp
  · rw [Shape.fill, hroster]
    simp [Token.forgetAll_append, Token.forgetAll, Reading.forget_fill_read s pointer hg]

/-! ## The tokens of items -/

namespace Item

theorem passThrough_tokens (tokens : List Token) (d : Diagnostic) :
    (passThrough tokens d).1.fill Attachment.tokens ++ (passThrough tokens d).2 = tokens := by
  have hpassed := spanPassed_append (Form.readAll tokens).2
  have hforms := Form.readAll_append tokens
  rw [← hpassed] at hforms
  simpa only [passThrough, fill, List.append_assoc] using hforms

/-- The item and the rest make up the tokens. -/
theorem parse_tokens (s : Settings) (pointer : Text) (tokens : List Token) :
    Token.forgetAll ((parse s pointer tokens).1.fill Attachment.tokens ++
      (parse s pointer tokens).2) = Token.forgetAll tokens := by
  have hscan := Attachment.scan_tokens s pointer tokens
  have hvisibility := spanVisibility_append (Attachment.scan s pointer tokens).2
  simp only [parse]
  split
  · rw [passThrough_tokens]
  split
  · rw [passThrough_tokens]
  · rename_i shape rest hshape
    have hfill := Shape.forgetAll_fill hshape
    rw [← hvisibility] at hscan
    rw [← congrArg Token.forgetAll hscan]
    simp only [fill, List.append_assoc, Token.forgetAll_append, ← hfill]

theorem parseFrom_tokens (s : Settings) (index : Nat) (tokens : List Token) :
    Token.forgetAll ((parseFrom s index tokens).flatMap (fill Attachment.tokens)) =
      Token.forgetAll tokens := by
  fun_induction parseFrom s index tokens with
  | case1 => rfl
  | case2 index t rest result ih =>
    rw [List.flatMap_cons, Token.forgetAll_append, ih, ← Token.forgetAll_append]
    exact parse_tokens s _ _

/-- The annotations at the head of a file that belong to the file. -/
def headForms (tokens : List Token) : List Form :=
  (Form.readAll tokens).1.takeWhile Form.isInner

/-- What follows the annotations that belong to the file. -/
def behindHead (tokens : List Token) : List Token :=
  tokens.drop ((headForms tokens).flatMap Form.tokens).length

theorem behindHead_eq (tokens : List Token) :
    behindHead tokens = ((Form.readAll tokens).1.dropWhile Form.isInner).flatMap Form.tokens ++
      (Form.readAll tokens).2 := by
  have hforms := Form.readAll_append tokens
  rw [← List.takeWhile_append_dropWhile (p := Form.isInner) (l := (Form.readAll tokens).1),
    List.flatMap_append, List.append_assoc] at hforms
  have hdrop := congrArg (List.drop ((headForms tokens).flatMap Form.tokens).length) hforms
  rw [headForms, List.drop_left] at hdrop
  exact hdrop.symm

theorem headForms_append (tokens : List Token) :
    (headForms tokens).flatMap Form.tokens ++ behindHead tokens = tokens := by
  rw [behindHead_eq, headForms, ← List.append_assoc, ← List.flatMap_append,
    List.takeWhile_append_dropWhile, Form.readAll_append]

theorem parseAll_cases (s : Settings) (tokens : List Token) :
    (headForms tokens = [] ∧ parseAll s tokens = parseFrom s 0 (behindHead tokens)) ∨
      (headForms tokens ≠ [] ∧ parseAll s tokens =
        .enclosing (pointerOf 0) (Attachment.ofForms s (pointerOf 0) (headForms tokens)) ::
          parseFrom s 1 (behindHead tokens)) := by
  simp only [parseAll]
  split
  · rename_i hempty
    have hnil : headForms tokens = [] := List.isEmpty_iff.1 hempty
    refine .inl ⟨hnil, ?_⟩
    rw [behindHead, hnil]
    rfl
  · rename_i hempty
    exact .inr ⟨fun hnil => hempty (List.isEmpty_iff.2 hnil), rfl⟩

/-- A filled file is its filled head and the filled items behind it. -/
theorem parseAll_fill (s : Settings) (f : Attachment → List Token) (tokens : List Token) :
    ∃ index, (parseAll s tokens).flatMap (fill f) =
      (Attachment.ofForms s (pointerOf 0) (headForms tokens)).flatMap f ++
        (parseFrom s index (behindHead tokens)).flatMap (fill f) := by
  rcases parseAll_cases s tokens with ⟨hnil, hparse⟩ | ⟨-, hparse⟩
  · exact ⟨0, by rw [hparse, hnil]; rfl⟩
  · exact ⟨1, by rw [hparse, List.flatMap_cons]; rfl⟩

/-- The items of a file, filled with their own annotations, are the tokens of the file. -/
theorem parseAll_tokens (s : Settings) (tokens : List Token) :
    Token.forgetAll ((parseAll s tokens).flatMap (fill Attachment.tokens)) =
      Token.forgetAll tokens := by
  obtain ⟨index, hfill⟩ := parseAll_fill s Attachment.tokens tokens
  rw [hfill, Token.forgetAll_append, parseFrom_tokens, ← Token.forgetAll_append,
    Attachment.flatMap_tokens_ofForms, headForms_append]

end Item

/-! ## The forms of annotations -/

theorem Members.scanned_fields {s : Settings} {pointer : Text} {g : Token} {d : Delimiter}
    {a : Attachment}
    (ha : a ∈ ((fields s pointer g d).pieces Member.pieces).flatMap Piece.attachments) :
    a.Scanned s := by
  obtain ⟨m, hm, ha⟩ := mem_attachments.1 ha
  obtain ⟨index, hindex, rfl⟩ := List.mem_mapIdx.1 hm
  exact Attachment.scan_scanned s _ _ a (Member.mem_attachments.1 ha)

theorem Members.scanned_variantFields {s : Settings} {pointer : Text} {tokens : List Token}
    {m : Members Member} (h : (variantFields s pointer tokens).1 = some m) {a : Attachment}
    (ha : a ∈ (m.pieces Member.pieces).flatMap Piece.attachments) : a.Scanned s := by
  cases tokens with
  | nil => cases h
  | cons t rest =>
    simp only [variantFields] at h
    split at h
    · cases h
      exact scanned_fields ha
    · split at h
      · cases h
        exact scanned_fields ha
      · cases h

/-- The annotations of members are what proper forms are. -/
theorem Reading.scanned_read {s : Settings} {pointer : Text} {g : Token} (reading : Reading)
    {a : Attachment} (ha : a ∈ (reading.read s pointer g).pieces.flatMap Piece.attachments) :
    a.Scanned s := by
  cases reading with
  | fields d => exact Members.scanned_fields ha
  | traitMembers =>
    obtain ⟨m, hm, ha⟩ := Members.mem_attachments.1 ha
    obtain ⟨index, hindex, rfl⟩ := List.mem_mapIdx.1 hm
    exact Attachment.scan_scanned s _ _ a (Member.mem_attachments.1 ha)
  | variants =>
    obtain ⟨v, hv, ha⟩ := Members.mem_attachments.1 ha
    obtain ⟨index, hindex, rfl⟩ := List.mem_mapIdx.1 hv
    rcases Variant.mem_attachments.1 ha with ha | ⟨fields, hfields, ha⟩
    · exact Attachment.scan_scanned s _ _ a ha
    · exact Members.scanned_variantFields hfields ha

theorem Shape.scanned_take {s : Settings} {pointer : Text} {kind : Kind}
    {tokens rest : List Token} {shape : Shape}
    (h : Shape.take s pointer kind tokens = .ok (shape, rest)) {r : Roster}
    (hr : r ∈ shape.roster) {a : Attachment} (ha : a ∈ r.pieces.flatMap Piece.attachments) :
    a.Scanned s := by
  rcases Shape.take_tokens h with ⟨hroster, -⟩ | ⟨reading, g, -, hroster, -⟩
  · rw [hroster] at hr
    cases hr
  · rw [hroster] at hr
    cases hr
    exact reading.scanned_read ha

namespace Item

theorem parse_scanned {s : Settings} {pointer : Text} {tokens : List Token} {a : Attachment}
    (ha : a ∈ (parse s pointer tokens).1.attachments) : a.Scanned s := by
  have hpassed : ∀ d, a ∉ (passThrough tokens d).1.attachments := by
    intro d
    simp [passThrough]
  simp only [parse] at ha
  split at ha
  · exact absurd ha (hpassed _)
  split at ha
  · exact absurd ha (hpassed _)
  · rename_i hshape
    rcases mem_attachments_declared.1 ha with ha | ⟨r, hr, ha⟩
    · exact Attachment.scan_scanned s _ _ a ha
    · exact Shape.scanned_take hshape hr ha

theorem parseFrom_scanned {s : Settings} {index : Nat} {tokens : List Token} {i : Item}
    (hi : i ∈ parseFrom s index tokens) {a : Attachment} (ha : a ∈ i.attachments) :
    a.Scanned s := by
  fun_induction parseFrom s index tokens with
  | case1 => cases hi
  | case2 index t rest result ih =>
    rcases List.mem_cons.1 hi with rfl | hi
    · exact parse_scanned ha
    · exact ih hi

/-- The annotations of a file are what proper forms are. -/
theorem parseAll_scanned {s : Settings} {tokens : List Token} {i : Item}
    (hi : i ∈ parseAll s tokens) {a : Attachment} (ha : a ∈ i.attachments) : a.Scanned s := by
  rcases parseAll_cases s tokens with ⟨-, hparse⟩ | ⟨-, hparse⟩
  · rw [hparse] at hi
    exact parseFrom_scanned hi ha
  · rw [hparse] at hi
    rcases List.mem_cons.1 hi with rfl | hi
    · rw [attachments_enclosing] at ha
      exact Attachment.scanned_of_mem
        (fun f hf => (Form.readAll_spec tokens).1 f (List.takeWhile_sublist _ |>.mem hf)) ha
    · exact parseFrom_scanned hi ha

end Item

end CondAttrs
