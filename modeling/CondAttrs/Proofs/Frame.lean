import CondAttrs.Expansion
import CondAttrs.Proofs.Reading.Fill

/-!
# What the expansion of a file leaves alone

The expansion of a file replaces annotations and does nothing else. Two texts are
*framed* by a list of annotations if they consist of the same gaps, with the
annotations between them: as they are written in the one text, and as they are lowered in
the other. Framed texts are put together from framed parts, so a file is framed because
each of its items is.

The annotations of a file are those at the attachment points of its items. An item that
is passed through has none; whatever stands in it is part of a gap.

## Main definitions

* `Attachment.isRewritten`: the annotation is a directive or has a fault.
* `Framed`: two texts differ in the given annotations only.

## Main statements

* `transform_framed`: the output of a file is framed by its directives and faults.
-/

namespace CondAttrs

namespace Attachment

/-- The annotation as it is written, with the trivia in front. -/
def source (a : Attachment) : Text :=
  Token.renderAll a.tokens

/-- Whether the annotation is written anew: it is a directive, or it has a fault. -/
def isRewritten : Attachment → Bool
  | accepted (.plain _) => false
  | accepted (.directive _ _) => true
  | failed _ _ => true

theorem lower_eq_source {a : Attachment} (h : a.isRewritten = false) (s : Settings) :
    a.lower s = a.source := by
  cases a with
  | failed => cases h
  | accepted attr =>
    cases attr with
    | plain form => rfl
    | directive => cases h

/-- An annotation starts with its trivia. -/
theorem source_eq_leading (a : Attachment) : ∃ own, a.source = a.form.leading ++ own := by
  have htoken : ∀ t : Token, ∃ own, t.render = t.leading ++ own := by
    intro t
    cases t with
    | atom leading pos atom => exact ⟨_, by rw [Token.render]; rfl⟩
    | group leading pos d children closeLeading => exact ⟨_, by rw [Token.render]; rfl⟩
  have hfirst : ∀ (t : Token) (rest : List Token),
      ∃ own, Token.renderAll (t :: rest) = t.leading ++ own := by
    intro t rest
    obtain ⟨own, hown⟩ := htoken t
    exact ⟨own ++ Token.renderAll rest, by rw [Token.renderAll, hown, List.append_assoc]⟩
  unfold source tokens
  cases a.form with
  | doc leading pos marker value => exact hfirst _ _
  | marked hash bang bracket => exact hfirst _ _
  | bare first rest => exact hfirst _ _

/-- What is written instead: the trivia of the annotation, and behind it the native
attribute of a directive, or the attribute that carries the message of a fault. -/
theorem lower_of_isRewritten {a : Attachment} (h : a.isRewritten = true) (s : Settings) :
    (∃ form body, a = accepted (.directive form body) ∧
      a.lower s = form.leading ++ body.native s form.isInner) ∨
    ∃ form d, a = failed form d ∧
      a.lower s = form.leading ++ Embed.attributeText s [] d.fault.message := by
  cases a with
  | failed form d => exact .inr ⟨form, d, rfl, by simp [lower, Embed.attributeText]⟩
  | accepted attr =>
    cases attr with
    | plain form => cases h
    | directive form body => exact .inl ⟨form, body, rfl, rfl⟩

end Attachment

/-! ## Framed texts -/

/-- The texts consist of the same gaps with the given annotations between them, written
in the first text as in the source and in the second as they are lowered. -/
def Framed (s : Settings) (annotations : List Attachment) (old new : Text) : Prop :=
  ∃ (first : Text) (gaps : List (Attachment × Text)),
    gaps.map Prod.fst = annotations ∧
      old = first ++ gaps.flatMap (fun p => p.1.source ++ p.2) ∧
      new = first ++ gaps.flatMap (fun p => p.1.lower s ++ p.2)

namespace Framed

variable {s : Settings}

/-- A text without annotations. -/
theorem keep (s : Settings) (t : Text) : Framed s [] t t :=
  ⟨t, [], rfl, by simp, by simp⟩

theorem eq_of_nil {old new : Text} (h : Framed s [] old new) : new = old := by
  obtain ⟨first, gaps, hgaps, rfl, rfl⟩ := h
  rw [List.map_eq_nil_iff.1 hgaps]
  rfl

/-- Texts are put together; the last gap of the one and the first of the other become
one. -/
theorem append {annotations annotations' : List Attachment} {old new old' new' : Text}
    (h : Framed s annotations old new) (h' : Framed s annotations' old' new') :
    Framed s (annotations ++ annotations') (old ++ old') (new ++ new') := by
  obtain ⟨first, gaps, rfl, rfl, rfl⟩ := h
  obtain ⟨second, gaps', rfl, rfl, rfl⟩ := h'
  rcases List.eq_nil_or_concat gaps with rfl | ⟨init, ⟨a, last⟩, rfl⟩
  · exact ⟨first ++ second, gaps', by simp, by simp, by simp⟩
  · exact ⟨first, init ++ (a, last ++ second) :: gaps', by simp, by simp, by simp⟩

/-- An annotation of its own. -/
theorem attachment (s : Settings) (a : Attachment) :
    Framed s ([a].filter Attachment.isRewritten) a.source (a.lower s) := by
  cases h : a.isRewritten with
  | false =>
    rw [List.filter_cons_of_neg (by simp [h]), Attachment.lower_eq_source h]
    exact keep s a.source
  | true =>
    rw [List.filter_cons_of_pos h]
    exact ⟨[], [(a, [])], rfl, by simp, by simp⟩

theorem flatMap {α : Type} {annotations : α → List Attachment} {old new : α → Text} {l : List α}
    (h : ∀ a ∈ l, Framed s (annotations a) (old a) (new a)) :
    Framed s (l.flatMap annotations) (l.flatMap old) (l.flatMap new) := by
  induction l with
  | nil => exact keep s []
  | cons a l ih =>
    obtain ⟨ha, hl⟩ := List.forall_mem_cons.1 h
    simp only [List.flatMap_cons]
    exact ha.append (ih hl)

end Framed

/-! ## Items -/

namespace Item

/-- The text of an item in the source. -/
def source (i : Item) : Text :=
  i.pieces.flatMap (Piece.fill Attachment.source)

/-- The annotations of an item that are written anew, in order. -/
def rewritten (i : Item) : List Attachment :=
  i.attachments.filter Attachment.isRewritten

theorem piece_framed (s : Settings) (p : Piece) :
    Framed s (p.attachments.filter Attachment.isRewritten) (p.fill Attachment.source)
      (p.lower s) := by
  cases p with
  | fixed text => exact .keep s text
  | slot point =>
    have hfilter : point.attachments.filter Attachment.isRewritten =
        point.attachments.flatMap fun a => [a].filter Attachment.isRewritten := by
      induction point.attachments with
      | nil => rfl
      | cons a rest ih => rw [List.flatMap_cons, ← ih, ← List.filter_append]; rfl
    show Framed s (point.attachments.filter Attachment.isRewritten)
      (point.attachments.flatMap Attachment.source) (Attachment.lowerAll s point.attachments)
    rw [hfilter]
    exact .flatMap fun a _ => .attachment s a

/-- An item is framed by its directives and faults. -/
theorem framed (s : Settings) (i : Item) : Framed s i.rewritten i.source (i.lower s) := by
  have hrewritten : i.rewritten =
      i.pieces.flatMap fun p => p.attachments.filter Attachment.isRewritten := by
    rw [rewritten, attachments_eq, List.filter_flatMap]
  rw [hrewritten]
  exact .flatMap fun p _ => piece_framed s p

/-- The items of a file make up its text. -/
theorem source_parseAll {t : Text} {stream : TokenStream} (h : tokenize t = .ok stream)
    (s : Settings) : (parseAll s stream.tokens).flatMap source ++ stream.trailing = t := by
  have hitems : (parseAll s stream.tokens).flatMap source = Token.renderAll stream.tokens := by
    calc (parseAll s stream.tokens).flatMap source
        = (parseAll s stream.tokens).flatMap
            fun i => Token.renderAll (i.fill Attachment.tokens) := by
          congr 1
          funext i
          exact (render_fill (fun _ => rfl) i).symm
      _ = Token.renderAll ((parseAll s stream.tokens).flatMap (fill Attachment.tokens)) :=
          (Token.renderAll_flatMap _ _).symm
      _ = Token.renderAll stream.tokens := by
          rw [← Token.renderAll_forgetAll, parseAll_tokens, Token.renderAll_forgetAll]
  rw [hitems]
  exact render_of_tokenize h

end Item

/-! ## Files that do not mention the directive -/

namespace Token

mutual

theorem mentions_forget (name : Text) : ∀ t : Token, t.forget.mentions name = t.mentions name
  | .atom _ _ _ => rfl
  | .group _ _ _ children _ => anyMentions_forgetAll name children

theorem anyMentions_forgetAll (name : Text) :
    ∀ ts : List Token, anyMentions name (forgetAll ts) = anyMentions name ts
  | [] => rfl
  | t :: rest => by
    rw [forgetAll, anyMentions, anyMentions, mentions_forget name t,
      anyMentions_forgetAll name rest]

end

theorem anyMentions_append (name : Text) (first second : List Token) :
    anyMentions name (first ++ second) =
      (anyMentions name first || anyMentions name second) := by
  induction first with
  | nil => rfl
  | cons t rest ih => rw [List.cons_append, anyMentions, anyMentions, ih, Bool.or_assoc]

/-- Not to mention a name is inherited by the parts of a token list. -/
theorem inherited_anyMentions (name : Text) :
    Inherited fun ts => anyMentions name ts = false where
  left h := by
    rw [anyMentions_append, Bool.or_eq_false_iff] at h
    exact h.1
  right h := by
    rw [anyMentions_append, Bool.or_eq_false_iff] at h
    exact h.2
  inside h := by simpa [anyMentions, mentions] using h

theorem anyMentions_of_ident? {name : Text} {ts : List Token} {t : Token} (ht : t ∈ ts)
    (h : t.ident? = some name) : anyMentions name ts = true := by
  induction ts with
  | nil => cases ht
  | cons u ts ih =>
    rw [anyMentions, Bool.or_eq_true]
    rcases List.mem_cons.1 ht with rfl | ht
    · left
      cases t with
      | group => cases h
      | atom leading pos a =>
        cases a with
        | ident name' => cases h; simp [mentions]
        | _ => cases h
    · exact .inr (ih ht)

end Token

/-- A form with a name mentions it. -/
theorem Form.anyMentions_name {f : Form} (hdoc : f.isDoc = false) (hname : f.name ≠ []) :
    Token.anyMentions f.name f.tokens = true := by
  have hcontent : Token.anyMentions f.name f.content = true := by
    have hpath : f.name = AttributePath.name f.path := by
      cases f with
      | doc => cases hdoc
      | marked => rfl
      | bare => rfl
    have hlast : ∃ t ∈ f.path, t.ident? = some f.name := by
      rw [hpath, AttributePath.name] at hname ⊢
      cases hl : (f.path.filterMap Token.ident?).getLast? with
      | none => rw [hl] at hname; exact absurd rfl hname
      | some name => exact List.mem_filterMap.1 (List.mem_of_getLast? hl)
    obtain ⟨t, ht, hident⟩ := hlast
    have hsplit : f.path ++ f.arguments = f.content := AttributePath.split_append f.content
    exact Token.anyMentions_of_ident? (by rw [← hsplit]; simp [ht]) hident
  cases f with
  | doc => cases hdoc
  | marked hash bang bracket =>
    rw [content] at hcontent
    rw [tokens, ← List.cons_append, Token.anyMentions_append, Bool.or_eq_true]
    right
    cases bracket with
    | atom => simp [Token.children, Token.anyMentions] at hcontent
    | group => simpa [Token.anyMentions, Token.mentions, Token.children] using hcontent
  | bare first rest => exact hcontent

/-- An annotation that does not mention the directive stays as it is. -/
theorem Attachment.isRewritten_of_anyMentions {s : Settings} (hs : s.directive ≠ [])
    {a : Attachment} (ha : a.Scanned s) (h : Token.anyMentions s.directive a.tokens = false) :
    a.isRewritten = false := by
  obtain ⟨pointer, f, -, rfl⟩ := ha
  rw [tokens, form_ofForm] at h
  have hplain : (f.isDoc || f.name != s.directive) = true := by
    cases hdoc : f.isDoc with
    | true => rfl
    | false =>
      rw [Bool.false_or, bne_iff_ne]
      intro hname
      have := Form.anyMentions_name hdoc (by rw [hname]; exact hs)
      rw [hname, h] at this
      cases this
  unfold ofForm Attribute.ofForm
  rw [if_pos hplain]
  rfl

namespace Item

/-- No item of a file mentions what the file does not mention. -/
theorem anyMentions_fill {name : Text} {s : Settings} {tokens : List Token}
    (h : Token.anyMentions name tokens = false) {i : Item} (hi : i ∈ parseAll s tokens) :
    Token.anyMentions name (i.fill Attachment.tokens) = false := by
  rw [← Token.anyMentions_forgetAll, ← parseAll_tokens s, Token.anyMentions_forgetAll] at h
  exact (Token.inherited_anyMentions name).flatMap h hi

/-- The items of a file that does not mention the directive have nothing to rewrite. -/
theorem attachments_of_anyMentions {s : Settings} (hs : s.directive ≠ []) {tokens : List Token}
    (h : Token.anyMentions s.directive tokens = false) {i : Item} (hi : i ∈ parseAll s tokens)
    {a : Attachment} (ha : a ∈ i.attachments) : a.isRewritten = false :=
  Attachment.isRewritten_of_anyMentions hs (parseAll_scanned hi ha)
    ((Token.inherited_anyMentions s.directive).item (anyMentions_fill h hi) ha)

theorem rewritten_eq_nil {i : Item} (h : ∀ a ∈ i.attachments, a.isRewritten = false) :
    i.rewritten = [] := by
  rw [rewritten, List.filter_eq_nil_iff]
  intro a ha
  simp [h a ha]

/-- What is reported about an item are the faults of its annotations, in order. -/
theorem annotationFaults_eq (i : Item) :
    i.annotationFaults = i.attachments.filterMap Attachment.fault? := by
  rw [annotationFaults, attachments, List.filterMap_flatMap]

theorem annotationFaults_eq_nil {i : Item} (h : ∀ a ∈ i.attachments, a.isRewritten = false) :
    i.annotationFaults = [] := by
  rw [annotationFaults_eq, List.filterMap_eq_nil_iff]
  intro a ha
  have hplain := h a ha
  cases a with
  | accepted => rfl
  | failed => cases hplain

end Item

/-! ## Files -/

theorem transform_eq (s : Settings) {t : Text} {stream : TokenStream}
    (h : tokenize t = .ok stream) :
    transform s t = ⟨(Item.parseAll s stream.tokens).flatMap (Item.lower s) ++ stream.trailing,
      (Item.parseAll s stream.tokens).flatMap fun i =>
        i.report (s.warnUnsupported && i.mentionsDirective s)⟩ := by
  rw [transform, h]

/-- The expansion of a file replaces the directives and the faulty annotations at the
attachment points of its items, each by what it is lowered to behind the same trivia, and
leaves everything else as it is. A file that does not mention the directive is left alone
altogether. -/
theorem transform_framed (s : Settings) {t : Text} {stream : TokenStream}
    (h : tokenize t = .ok stream) :
    let items := Item.parseAll s stream.tokens
    Framed s (items.flatMap Item.rewritten) t (transform s t).text ∧
    (items.flatMap Item.source ++ stream.trailing = t ∧
      items.flatMap (Item.lower s) ++ stream.trailing = (transform s t).text ∧
      ∀ i ∈ items, Framed s i.rewritten i.source (i.lower s) ∧
        ∀ tokens d, i = .unsupported tokens d →
          i.rewritten = [] ∧ i.source = Token.renderAll tokens) ∧
    (∀ i ∈ items, ∀ a ∈ i.rewritten, (∃ own, a.source = a.form.leading ++ own) ∧
      ((∃ form body, a = .accepted (.directive form body) ∧
          a.lower s = form.leading ++ body.native s form.isInner) ∨
        ∃ form d, a = .failed form d ∧
          a.lower s = form.leading ++ Embed.attributeText s [] d.fault.message)) ∧
    (s.directive ≠ [] → Token.anyMentions s.directive stream.tokens = false →
      transform s t = ⟨t, []⟩) := by
  intro items
  have hsource : items.flatMap Item.source ++ stream.trailing = t := Item.source_parseAll h s
  have htransform : transform s t =
      ⟨items.flatMap (Item.lower s) ++ stream.trailing,
        items.flatMap fun i => i.report (s.warnUnsupported && i.mentionsDirective s)⟩ := by
    rw [transform, h]
  have hframed : Framed s (items.flatMap Item.rewritten) t (transform s t).text := by
    have hitems : Framed s (items.flatMap Item.rewritten) (items.flatMap Item.source)
        (items.flatMap (Item.lower s)) := .flatMap fun i _ => Item.framed s i
    have hall := hitems.append (.keep s stream.trailing)
    rw [List.append_nil, hsource] at hall
    rw [htransform]
    exact hall
  refine ⟨hframed, ⟨hsource, by rw [htransform], fun i _ => ⟨Item.framed s i, ?_⟩⟩, ?_, ?_⟩
  · rintro tokens d rfl
    refine ⟨rfl, ?_⟩
    simp [Item.source, Item.pieces, Piece.fill, Piece.ofTokens]
  · intro i _ a ha
    exact ⟨a.source_eq_leading, Attachment.lower_of_isRewritten (List.mem_filter.1 ha).2 s⟩
  · intro hs hmentions
    have hplain : ∀ i ∈ items, ∀ a ∈ i.attachments, a.isRewritten = false :=
      fun i hi a ha => Item.attachments_of_anyMentions hs hmentions hi ha
    have hnone : items.flatMap Item.rewritten = [] :=
      List.flatMap_eq_nil_iff.2 fun i hi => Item.rewritten_eq_nil (hplain i hi)
    have htext : (transform s t).text = t := by
      rw [hnone] at hframed
      exact hframed.eq_of_nil
    have hreports : (transform s t).diagnostics = [] := by
      rw [htransform]
      refine List.flatMap_eq_nil_iff.2 fun i hi => ?_
      cases i with
      | unsupported tokens d =>
        have hfill : Token.anyMentions s.directive tokens = false :=
          Item.anyMentions_fill hmentions hi
        simp [Item.report, Item.mentionsDirective, hfill]
      | declared d => exact Item.annotationFaults_eq_nil (hplain _ hi)
      | enclosing pointer attachments => exact Item.annotationFaults_eq_nil (hplain _ hi)
    exact congr (congrArg Expansion.mk htext) hreports

/-- A file with a directive that is lowered, a faulty one that becomes an error, and one
inside an item that is passed through. Under another name of the directive nothing
happens to it. -/
theorem transform_framed_mixed :
    let t : Text :=
      "#[cfg_attrs(a, b)] struct S(#[cfg_attrs] u8); impl X \x7b #[cfg_attrs(c, d)] \x7d "
    let out : Text :=
      "#[cfg_attr(a, b)] struct S(#[doc = ::core::compile_error!(" ++
        Text.Quoted.encode "expected attribute arguments in parentheses: `cfg_attrs(...)`" ++
        ")] u8); impl X \x7b #[cfg_attrs(c, d)] \x7d "
    ∃ stream, tokenize t = .ok stream ∧
      Framed {} ((Item.parseAll {} stream.tokens).flatMap Item.rewritten) t out ∧
      transform { directive := "when" } t = ⟨t, []⟩ := by
  intro t out
  have hout : (transform {} t).text = out := by decide +kernel
  cases h : tokenize t with
  | error d =>
    have hok : (tokenize t).isOk = true := by decide +kernel
    rw [h] at hok
    cases hok
  | ok stream =>
    have hmentions : (tokenize t).toOption.map
        (fun stream => Token.anyMentions "when" stream.tokens) = some false := by decide +kernel
    rw [h] at hmentions
    have hframed := (transform_framed {} h).1
    rw [hout] at hframed
    exact ⟨stream, rfl, hframed, (transform_framed { directive := "when" } h).2.2.2 (by decide)
      (Option.some.inj hmentions)⟩

end CondAttrs
