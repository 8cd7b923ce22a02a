import CondAttrs.Diagnostic.Report
import CondAttrs.Proofs.Frame
import CondAttrs.Proofs.Lowering.Deferral
import CondAttrs.Proofs.Reading.Reread
import CondAttrs.Proofs.Reading.Refuse

/-!
# A file that is one declaration

A text that is one declaration can be expanded in two ways, as a single item or as a file.
The output is the same, and so are the diagnostics, up to the pointers by which they are
labelled.

A file that starts with inner annotations keeps them apart, as an item of its own, and the
declaration starts behind them. As a single item it has all of them. But an annotation is
read without regard to the others, so nothing depends on how they are shared out.

## Main definitions

* `Attachment.unpointed`, `Piece.unpointed`: the same without pointers.

## Main statements

* `Shape.take_repointed`, `Item.parse_repointed`: a declaration read under other pointers.
* `transform_eq_expandItem`: both ways to expand a declaration.
-/

namespace CondAttrs

/-! ## Without pointers -/

namespace Attachment

/-- The annotation without the pointer of its fault. -/
def unpointed : Attachment → Attachment
  | accepted attr => accepted attr
  | failed form d => failed form d.unpointed

theorem lower_unpointed (s : Settings) (a : Attachment) : a.unpointed.lower s = a.lower s := by
  cases a <;> rfl

theorem fault?_unpointed (a : Attachment) :
    a.unpointed.fault? = a.fault?.map Diagnostic.unpointed := by
  cases a <;> rfl

theorem unpointed_ofForm (s : Settings) (pointer pointer' : Text) (f : Form) :
    (ofForm s pointer f).unpointed = (ofForm s pointer' f).unpointed := by
  unfold ofForm
  rcases Attribute.agree_ofForm s pointer pointer' f with ⟨attr, hok, hok'⟩ |
    ⟨d, d', herror, herror', hd⟩
  · rw [hok, hok']
  · rw [herror, herror']
    exact congrArg (failed f) hd.symm

/-- What annotations are does not depend on how they are numbered. -/
theorem map_unpointed_ofForms (s : Settings) (pointer : Text) (forms : List Form) :
    (ofForms s pointer forms).map unpointed = forms.map fun f => (ofForm s [] f).unpointed := by
  apply List.ext_getElem
  · simp [ofForms]
  · intro index _ _
    simp only [ofForms, List.getElem_map, List.getElem_mapIdx]
    exact unpointed_ofForm s _ _ _

/-- Annotations that are the same without pointers become the same text. -/
theorem lowerAll_of_unpointed (s : Settings) {l l' : List Attachment}
    (h : l'.map unpointed = l.map unpointed) : lowerAll s l' = lowerAll s l := by
  have hlower := congrArg (List.flatMap (lower s)) h
  simp only [List.flatMap_map, lower_unpointed] at hlower
  exact hlower

/-- Annotations that are the same without pointers have the same faults. -/
theorem faults_of_unpointed {l l' : List Attachment} (h : l'.map unpointed = l.map unpointed) :
    (l'.filterMap fault?).map Diagnostic.unpointed =
      (l.filterMap fault?).map Diagnostic.unpointed := by
  have hfaults := congrArg (List.filterMap fault?) h
  simpa only [List.filterMap_map, Function.comp_def, fault?_unpointed, ← List.map_filterMap]
    using hfaults

end Attachment

/-- The piece without pointers. -/
def Piece.unpointed : Piece → Piece
  | fixed text => fixed text
  | slot p => slot { p with pointer := [], attachments := p.attachments.map Attachment.unpointed }

namespace Piece

variable {pieces pieces' : List Piece}

theorem fill_unpointed (s : Settings) (p : Piece) :
    p.unpointed.fill (Attachment.lower s) = p.fill (Attachment.lower s) := by
  cases p with
  | fixed text => rfl
  | slot point =>
    simp only [unpointed, fill, List.flatMap_map, Attachment.lower_unpointed]

theorem attachments_unpointed (p : Piece) :
    p.unpointed.attachments = p.attachments.map Attachment.unpointed := by
  cases p <;> rfl

/-- Pieces that are the same without pointers have the same text. -/
theorem text_of_unpointed (s : Settings) (h : pieces'.map unpointed = pieces.map unpointed) :
    pieces'.flatMap (fill (Attachment.lower s)) = pieces.flatMap (fill (Attachment.lower s)) := by
  have htext := congrArg (List.flatMap (fill (Attachment.lower s))) h
  simpa only [List.flatMap_map, fill_unpointed] using htext

/-- Pieces that are the same without pointers have the same annotations. -/
theorem attachments_of_unpointed (h : pieces'.map unpointed = pieces.map unpointed) :
    (pieces'.flatMap attachments).map Attachment.unpointed =
      (pieces.flatMap attachments).map Attachment.unpointed := by
  have hattachments := congrArg (List.flatMap attachments) h
  simpa only [List.flatMap_map, attachments_unpointed, ← List.map_flatMap] using hattachments

end Piece

/-! ## Members -/

namespace Members

theorem unpointed_ofChunks {α : Type} {pieces : α → List Piece}
    {read : Nat → Text → List Token → α}
    (h : ∀ index pointer pointer' chunk, (pieces (read index pointer' chunk)).map Piece.unpointed =
      (pieces (read index pointer chunk)).map Piece.unpointed)
    (g : Token) (d : Delimiter) (pointer pointer' name : Text) (chunks : List (List Token)) :
    ((ofChunks g d pointer' name chunks read).pieces pieces).map Piece.unpointed =
      ((ofChunks g d pointer name chunks read).pieces pieces).map Piece.unpointed := by
  have hmembers : ((chunks.mapIdx fun index chunk =>
        read index (Pointer.entry pointer' name index) chunk).flatMap pieces).map Piece.unpointed =
      ((chunks.mapIdx fun index chunk =>
        read index (Pointer.entry pointer name index) chunk).flatMap pieces).map
          Piece.unpointed := by
    rw [List.map_flatMap, List.map_flatMap, List.flatMap_def, List.flatMap_def]
    congr 1
    apply List.ext_getElem
    · simp
    · intro index _ _
      simp only [List.getElem_map, List.getElem_mapIdx]
      exact h index _ _ _
  simp only [Members.pieces, ofChunks, List.map_cons, List.map_append, hmembers]

variable (s : Settings) (pointer pointer' : Text)

theorem unpointed_fields (g : Token) (d : Delimiter) :
    ((fields s pointer' g d).pieces Member.pieces).map Piece.unpointed =
      ((fields s pointer g d).pieces Member.pieces).map Piece.unpointed := by
  refine unpointed_ofChunks (fun index pointer pointer' chunk => ?_) g d _ _ _ _
  simp only [Member.pieces, Attachment.scan, List.map_cons, Piece.unpointed,
    Attachment.map_unpointed_ofForms]

theorem unpointed_traitMembers (g : Token) :
    ((traitMembers s pointer' g).pieces Member.pieces).map Piece.unpointed =
      ((traitMembers s pointer g).pieces Member.pieces).map Piece.unpointed := by
  refine unpointed_ofChunks (fun index pointer pointer' chunk => ?_) g _ _ _ _ _
  simp only [Member.pieces, Attachment.scan, List.map_cons, Piece.unpointed,
    Attachment.map_unpointed_ofForms]

theorem unpointed_variantFields (tokens : List Token) :
    ((variantFields s pointer' tokens).1.elim [] (pieces Member.pieces)).map Piece.unpointed =
        ((variantFields s pointer tokens).1.elim [] (pieces Member.pieces)).map Piece.unpointed ∧
      (variantFields s pointer' tokens).2 = (variantFields s pointer tokens).2 := by
  cases tokens with
  | nil => exact ⟨rfl, rfl⟩
  | cons t rest =>
    simp only [variantFields]
    split
    · exact ⟨unpointed_fields s pointer pointer' t .brace, rfl⟩
    split
    · exact ⟨unpointed_fields s pointer pointer' t .paren, rfl⟩
    · exact ⟨rfl, rfl⟩

theorem unpointed_variants (g : Token) :
    ((variants s pointer' g).pieces Variant.pieces).map Piece.unpointed =
      ((variants s pointer g).pieces Variant.pieces).map Piece.unpointed := by
  rw [variants_eq, variants_eq]
  refine unpointed_ofChunks (fun index pointer pointer' chunk => ?_) g _ _ _ _ _
  obtain ⟨hfields, htail⟩ := unpointed_variantFields s pointer pointer'
    (splitVariant (Form.readAll chunk).2).2.2
  simp only [variantOf, Variant.pieces, Attachment.scan, List.map_append, List.map_cons,
    Piece.unpointed, Attachment.map_unpointed_ofForms, hfields, htail]

end Members

theorem Reading.unpointed_read (reading : Reading) (s : Settings) (pointer pointer' : Text)
    (g : Token) :
    (reading.read s pointer' g).pieces.map Piece.unpointed =
      (reading.read s pointer g).pieces.map Piece.unpointed := by
  cases reading with
  | fields d => exact Members.unpointed_fields s pointer pointer' g d
  | variants => exact Members.unpointed_variants s pointer pointer' g
  | traitMembers => exact Members.unpointed_traitMembers s pointer pointer' g

/-! ## Declarations -/

/-- The two shapes have the same text and the same annotations up to pointers. -/
structure Shape.Repointed (s : Settings) (shape shape' : Shape) : Prop where
  text : shape'.pieces.flatMap (Piece.fill (Attachment.lower s)) =
    shape.pieces.flatMap (Piece.fill (Attachment.lower s))
  attachments : (shape'.pieces.flatMap Piece.attachments).map Attachment.unpointed =
    (shape.pieces.flatMap Piece.attachments).map Attachment.unpointed

theorem Shape.Repointed.of_roster {s : Settings} {shape shape' : Shape}
    (hbefore : shape'.before = shape.before) (hafter : shape'.after = shape.after)
    (hroster : (shape'.roster.elim [] Roster.pieces).map Piece.unpointed =
      (shape.roster.elim [] Roster.pieces).map Piece.unpointed) : Repointed s shape shape' := by
  constructor
  · rw [pieces_fill, pieces_fill, hbefore, hafter, Piece.text_of_unpointed s hroster]
  · rw [pieces_attachments, pieces_attachments, Piece.attachments_of_unpointed hroster]

/-- Shapes that are read off the same tokens twice. -/
theorem Shape.Twin.repointed {s : Settings} {pointer pointer' : Text} {tokens : List Token}
    {shape shape' : Shape} (h : Twin s pointer pointer' (Cell.refl tokens) shape shape') :
    Repointed s shape shape' := by
  generalize hcells : Cell.refl tokens = cells at h
  cases h with
  | solid hlikens hroster hroster' =>
    refine .of_roster ?_ ?_ ?_
    · rw [hlikens.before, hlikens.before', ← hcells, Cell.olds_refl, Cell.news_refl]
    · rw [after_of_roster hroster, after_of_roster hroster']
    · rw [hroster, hroster']
  | listed reading hlikens _ hroster hroster' hafter hafter' =>
    obtain ⟨first, rest, -, hfirst, hrest⟩ := List.map_eq_append_iff.1 hcells
    obtain ⟨g, last, -, hg, hlast⟩ := List.map_eq_cons_iff.1 hrest
    obtain ⟨rfl, rfl⟩ := Cell.same.inj hg
    refine .of_roster ?_ ?_ ?_
    · rw [hlikens.before, hlikens.before', ← hfirst]
      exact (Cell.news_refl first).trans (Cell.olds_refl first).symm
    · rw [hafter, hafter', ← hlast]
      exact (Cell.news_refl last).trans (Cell.olds_refl last).symm
    · rw [hroster, hroster']
      exact reading.unpointed_read s pointer pointer' g

/-- A declaration is read alike under another pointer. -/
theorem Shape.take_repointed {s : Settings} {pointer : Text} {kind : Kind}
    {tokens rest : List Token} {shape : Shape}
    (h : take s pointer kind tokens = .ok (shape, rest)) (pointer' : Text) :
    ∃ shape', take s pointer' kind tokens = .ok (shape', rest) ∧ Repointed s shape shape' := by
  rcases paired_take s pointer pointer' kind (Cell.refl tokens) (Cell.sound_refl tokens) with
    ⟨own, behind, shape₁, shape', hcells, hold, hnew, htwin⟩ | ⟨e, e', hold, -⟩
  · obtain ⟨first, last, -, hfirst, hlast⟩ := List.map_eq_append_iff.1 hcells
    obtain rfl : Cell.refl first = own := hfirst
    obtain rfl : Cell.refl last = behind := hlast
    rw [Cell.olds_refl, Cell.olds_refl, h] at hold
    rw [Cell.news_refl, Cell.news_refl] at hnew
    obtain ⟨rfl, rfl⟩ := Prod.mk.inj (Except.ok.inj hold)
    exact ⟨shape', hnew, htwin.repointed⟩
  · rw [Cell.olds_refl, h] at hold
    cases hold

/-! ## Items -/

namespace Item

/-- The text of a declaration is that of its annotations, its visibility and its shape. -/
theorem lower_declared (s : Settings) (d : Declaration) :
    (declared d).lower s = Attachment.lowerAll s d.attachments ++ Token.renderAll d.visibility ++
      d.shape.pieces.flatMap (Piece.fill (Attachment.lower s)) := by
  rw [lower_eq_fill]
  simp [pieces, Declaration.pieces, Piece.fill, Piece.ofTokens, Declaration.point,
    Attachment.lowerAll]

/-- A declaration behind other annotations and under another pointer. -/
theorem parse_repointed {s : Settings} {pointer : Text} {tokens rest : List Token}
    {d : Declaration} (h : parse s pointer tokens = (.declared d, rest)) {forms : List Form}
    (hforms : ∀ f ∈ forms, f.Proper) (pointer' : Text) :
    ∃ shape', parse s pointer' (forms.flatMap Form.tokens ++ (Form.readAll tokens).2) =
        (.declared ⟨pointer', Attachment.ofForms s pointer' forms, d.visibility, shape'⟩, rest) ∧
      d.attachments = Attachment.ofForms s pointer (Form.readAll tokens).1 ∧
      Shape.Repointed s d.shape shape' := by
  rcases parse_cases s pointer tokens with ⟨-, _, -, hparse⟩ |
    ⟨kind, shape, rest', hselect, htake, hparse⟩
  · rw [h] at hparse
    cases hparse
  rw [h] at hparse
  cases hparse
  obtain ⟨shape', htake', hshape⟩ := Shape.take_repointed htake pointer'
  have hscan : Attachment.scan s pointer' (forms.flatMap Form.tokens ++ (Form.readAll tokens).2) =
      (Attachment.ofForms s pointer' forms, (Form.readAll tokens).2) := by
    rw [Attachment.scan, Form.readAll_of_proper hforms (Form.readAll_spec tokens).2]
  exact ⟨shape', parse_of_take hscan rfl hselect htake', rfl, hshape⟩

theorem parseFrom_of_parse {s : Settings} {index : Nat} {tokens : List Token} {d : Declaration}
    (h : parse s (pointerOf index) tokens = (.declared d, [])) :
    parseFrom s index tokens = [.declared d] := by
  cases tokens with
  | nil =>
    obtain ⟨d', hnil⟩ := parse_nil s (pointerOf index)
    rw [h] at hnil
    cases hnil
  | cons t rest => rw [parseFrom, h, parseFrom]

/-- A file that is one declaration: annotations that belong to the file, if there are any, and
the declaration with the others. -/
theorem parseAll_of_parse {s : Settings} {pointer : Text} {tokens : List Token} {d : Declaration}
    (h : parse s pointer tokens = (.declared d, [])) :
    ∃ head d', (parseAll s tokens = [.declared d'] ∧ head = [] ∨
        ∃ pointer', parseAll s tokens = [.enclosing pointer' head, .declared d']) ∧
      (head ++ d'.attachments).map Attachment.unpointed =
        d.attachments.map Attachment.unpointed ∧
      d'.visibility = d.visibility ∧ Shape.Repointed s d.shape d'.shape := by
  have hproper : ∀ f ∈ (Form.readAll tokens).1.dropWhile Form.isInner, f.Proper := fun f hf =>
    (Form.readAll_spec tokens).1 f ((List.dropWhile_sublist _).mem hf)
  have hitems : ∀ index, ∃ shape', parseFrom s index (behindHead tokens) =
      [.declared ⟨pointerOf index, Attachment.ofForms s (pointerOf index)
        ((Form.readAll tokens).1.dropWhile Form.isInner), d.visibility, shape'⟩] ∧
      d.attachments = Attachment.ofForms s pointer (Form.readAll tokens).1 ∧
      Shape.Repointed s d.shape shape' := by
    intro index
    obtain ⟨shape', hparse, hown, hshape⟩ := parse_repointed h hproper (pointerOf index)
    rw [← behindHead_eq] at hparse
    exact ⟨shape', parseFrom_of_parse hparse, hown, hshape⟩
  have hown : ∀ p p', (Attachment.ofForms s p (headForms tokens) ++ Attachment.ofForms s p'
      ((Form.readAll tokens).1.dropWhile Form.isInner)).map Attachment.unpointed =
      (Attachment.ofForms s pointer (Form.readAll tokens).1).map Attachment.unpointed := by
    intro p p'
    rw [List.map_append, Attachment.map_unpointed_ofForms, Attachment.map_unpointed_ofForms,
      Attachment.map_unpointed_ofForms, ← List.map_append, headForms,
      List.takeWhile_append_dropWhile]
  rcases parseAll_cases s tokens with ⟨hnil, hparse⟩ | ⟨-, hparse⟩
  · obtain ⟨shape', hfrom, hd, hshape⟩ := hitems 0
    rw [hfrom] at hparse
    refine ⟨[], _, .inl ⟨hparse, rfl⟩, ?_, rfl, hshape⟩
    have hall := hown [] (pointerOf 0)
    rw [hnil] at hall
    rw [hd, ← hall]
    rfl
  · obtain ⟨shape', hfrom, hd, hshape⟩ := hitems 1
    rw [hfrom] at hparse
    exact ⟨_, _, .inr ⟨_, hparse⟩, (hown _ _).trans (by rw [hd]), rfl, hshape⟩

/-- What is lowered and reported of a file that is one declaration. -/
theorem parseAll_agrees {s : Settings} {pointer : Text} {tokens : List Token} {d : Declaration}
    (h : parse s pointer tokens = (.declared d, [])) (warn : Item → Bool) :
    (parseAll s tokens).flatMap (lower s) = (declared d).lower s ∧
      ((parseAll s tokens).flatMap fun i => i.report (warn i)).map Diagnostic.unpointed =
        (declared d).annotationFaults.map Diagnostic.unpointed := by
  obtain ⟨head, d', hitems, hown, hvisibility, hshape⟩ := parseAll_of_parse h
  have hlower : (parseAll s tokens).flatMap (lower s) =
      Attachment.lowerAll s head ++ (declared d').lower s := by
    rcases hitems with ⟨hparse, rfl⟩ | ⟨pointer', hparse⟩
    · simp [hparse, Attachment.lowerAll]
    · simp [hparse, lower, pieces, Piece.lower]
  have hreport : ((parseAll s tokens).flatMap fun i => i.report (warn i)) =
      (head ++ (declared d').attachments).filterMap Attachment.fault? := by
    rcases hitems with ⟨hparse, rfl⟩ | ⟨pointer', hparse⟩
    · simp [hparse, report, annotationFaults_eq]
    · simp [hparse, report, annotationFaults_eq]
  constructor
  · rw [hlower, lower_declared, lower_declared, hvisibility, hshape.text,
      ← Attachment.lowerAll_of_unpointed s hown]
    simp [Attachment.lowerAll]
  · rw [hreport, annotationFaults_eq]
    apply Attachment.faults_of_unpointed
    rw [attachments_declared, attachments_declared, ← List.append_assoc, List.map_append, hown,
      hshape.attachments, List.map_append]

/-- A token list that is a declaration as a whole is a declaration with nothing behind it. -/
theorem parse_of_parseWhole {s : Settings} {pointer : Text} {tokens : List Token}
    {d : Declaration} (h : parseWhole s pointer tokens = .declared d) :
    parse s pointer tokens = (.declared d, []) := by
  rw [parseWhole] at h
  split at h
  case h_1 => cases h
  case h_2 hparse => rw [hparse, h]
  case h_3 => cases h
  case h_4 item rest hunsupported hrest hdeclared hparse =>
    -- the last case is left for items with tokens behind them that are no declaration
    subst h
    cases rest with
    | nil => exact hparse
    | cons next rest => exact absurd rfl (hdeclared d next rest rfl)

end Item

/-! ## Expansion -/

/-- A single item without arguments, when it is a declaration. -/
theorem expandItem_of_declared {s : Settings} {t : Text} {stream : TokenStream} {d : Declaration}
    (htokenize : tokenize t = .ok stream)
    (h : Item.parseWhole s itemPointer stream.tokens = .declared d) :
    expandItem s t [] =
      ⟨(Item.declared d).lower s ++ stream.trailing, (Item.declared d).annotationFaults⟩ := by
  have hparts : expandParts s t [] = .ok ([], .declared d, stream.trailing) := by
    rw [expandParts, invocationHead_nil, htokenize, ← h]
    rfl
  rw [expandItem, hparts]
  rfl

/-- A text that is one declaration is expanded alike as a file and as a single item. The
diagnostics differ in the paths at most. -/
theorem transform_eq_expandItem {s : Settings} {t : Text} {stream : TokenStream} {d : Declaration}
    (htokenize : tokenize t = .ok stream)
    (h : Item.parseWhole s itemPointer stream.tokens = .declared d) :
    (transform s t).text = (expandItem s t []).text ∧
      (transform s t).diagnostics.map (fun x => { Entry.ofDiagnostic x with path := [] }) =
        (expandItem s t []).diagnostics.map fun x => { Entry.ofDiagnostic x with path := [] } := by
  obtain ⟨htext, hreport⟩ := Item.parseAll_agrees (Item.parse_of_parseWhole h) fun i =>
    s.warnUnsupported && i.mentionsDirective s
  have hentries := congrArg (List.map Entry.ofDiagnostic) hreport
  rw [List.map_map, List.map_map] at hentries
  rw [expandItem_of_declared htokenize h, transform_eq s htokenize]
  exact ⟨congrArg (· ++ stream.trailing) htext, hentries⟩

/-- Inner and outer annotations in turn, accepted and refused ones, in front of a declaration
with refused ones inside. -/
theorem transform_eq_expandItem_mixed :
    let t : Text :=
      "#![cfg_attrs] #![a]\n/// b\n#![cfg_attrs(c, d)] #[cfg_attrs()]\npub enum E \x7b\n" ++
        "  #[cfg_attrs(e)] V(#[cfg_attrs(f, g)] u8),\n\x7d\n"
    (transform {} t).text = (expandItem {} t []).text ∧
      (transform {} t).diagnostics.length = 3 ∧
      (transform {} t).diagnostics.map (fun x => { Entry.ofDiagnostic x with path := [] }) =
        (expandItem {} t []).diagnostics.map fun x => { Entry.ofDiagnostic x with path := [] } := by
  intro t
  obtain ⟨stream, htokenize, htest⟩ := @exists_of_tokenize t
    (fun stream => match Item.parseWhole {} itemPointer stream.tokens with
      | .declared _ => true
      | _ => false)
    (by decide +kernel)
  obtain ⟨d, hparse⟩ : ∃ d, Item.parseWhole {} itemPointer stream.tokens = .declared d := by
    split at htest
    case h_1 d hparse => exact ⟨d, hparse⟩
    case h_2 => cases htest
  obtain ⟨htext, hentries⟩ := transform_eq_expandItem htokenize hparse
  exact ⟨htext, by decide +kernel, hentries⟩

end CondAttrs
