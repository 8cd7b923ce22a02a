import CondAttrs.Proofs.Frame
import CondAttrs.Proofs.Lowering.Carry
import CondAttrs.Proofs.Reading.Reread
import Mathlib.Data.List.Basic

/-!
# The output as tokens

The output of a file is a text, but it can be described by tokens: every annotation of the
file is exchanged for the form it is lowered to, and everything else stays. Reading the
output gives these tokens back, if the parts of directives can be quoted and the start of
the file is judged as before.

## Main definitions

* `Attachment.lowered`: the form that an annotation becomes.
* `Attachment.quiet`: no line of documentation swallows what is written behind it.

## Main statements

* `replaces_lowered`: lowered forms may take the place of annotations.
* `tokenize_transform`: the output is read as the tokens it is made of.
-/

namespace CondAttrs

theorem Body.isInner_native (s : Settings) (leading : Text) (inner : Bool) (b : Body Attribute) :
    (b.nativeForm s leading inner).isInner = inner := by
  cases inner <;> rfl

namespace Attachment

/-- The form that an annotation becomes in the output. -/
def lowered (s : Settings) : Attachment → Form
  | accepted (.plain form) => form
  | accepted (.directive form body) => body.nativeForm s form.leading form.isInner
  | failed form d => Embed.errorForm s form.leading d.fault.message

/-- Whether the annotation is no directive with a line of documentation at the end of its
condition or of the brackets of a nested attribute. -/
def quiet : Attachment → Bool
  | accepted (.directive _ body) => body.quiet
  | _ => true

variable {s : Settings} {a : Attachment}

/-- An annotation that is written anew is not documentation. -/
theorem Scanned.isDoc_of_isRewritten (h : a.Scanned s) (ha : a.isRewritten = true) :
    a.form.isDoc = false := by
  obtain ⟨pointer, f, -, rfl⟩ := h
  rw [form_ofForm, Bool.eq_false_iff]
  intro hdoc
  have hplain : Attribute.ofForm s pointer f = .ok (.plain f) :=
    Attribute.ofForm_eq_ok_iff.2 (.inl ⟨.inl hdoc, rfl⟩)
  rw [ofForm, hplain] at ha
  cases ha

/-- The lowered form may take the place of the annotation. -/
theorem exchanges_lowered (h : a.Scanned s) : a.Exchanges (a.lowered s) := by
  have hnew : ∀ {f : Form}, a.isRewritten = true → f.IsAttribute → f.leading = a.form.leading →
      (a.form.isInner = false → f.isInner = false) → a.Exchanges f := by
    intro f ha hattr hleading houter
    refine ⟨fun hdoc => ?_, fun _ => hattr, hleading, houter⟩
    rw [h.isDoc_of_isRewritten ha] at hdoc
    cases hdoc
  cases a with
  | failed form d => exact hnew rfl (Embed.isAttribute_error s _ _) rfl fun _ => rfl
  | accepted attr =>
    cases attr with
    | plain form =>
      exact ⟨fun _ => rfl, fun hdoc => h.proper.resolve_left (by simp [hdoc]), rfl, id⟩
    | directive form body =>
      refine hnew rfl (Body.isAttribute_native s _ _ body) rfl fun houter => ?_
      rw [lowered, Body.isInner_native]
      exact houter

end Attachment

theorem replaces_lowered (s : Settings) : Replaces s (Attachment.lowered s) :=
  fun _ h => Attachment.exchanges_lowered h

/-! ## Tokens of the source and of the output -/

theorem Token.Settled.of_forgetAll {ts ts' : List Token} (h : Settled ts)
    (hforget : forgetAll ts' = forgetAll ts) : Settled ts' := by
  obtain ⟨rest, hrest⟩ := h
  exact ⟨rest, by rwa [← signsAll_forgetAll, hforget, signsAll_forgetAll]⟩

/-- The annotations of a text are settled. -/
theorem Item.settled_of_tokenize {t : Text} {stream : TokenStream} (h : tokenize t = .ok stream)
    {s : Settings} {i : Item} (hi : i ∈ parseAll s stream.tokens) {a : Attachment}
    (ha : a ∈ i.attachments) : Token.Settled a.tokens := by
  have hfile := (Token.settled_of_tokenize h).of_forgetAll (parseAll_tokens s stream.tokens)
  exact Token.inherited_settled.item (Token.inherited_settled.flatMap hfile hi) ha

namespace Attachment

variable {s : Settings} {a : Attachment}

/-- The arguments of a settled directive can be quoted. -/
theorem Scanned.genuine {form : Form} {body : Body Attribute}
    (h : Scanned s (accepted (.directive form body))) (hsettled : Token.Settled form.tokens)
    (hquiet : body.quiet = true) : body.Genuine s := by
  obtain ⟨hproper, pointer, hok⟩ := h.ofForm_eq
  exact (Attribute.genuine_of_ofForm (hproper.placed_of_settled hsettled) hok hquiet).2

/-- The text of the lowered form is what the annotation becomes. -/
theorem Scanned.render_lowered (h : a.Scanned s) (hsettled : Token.Settled a.tokens)
    (hquiet : a.quiet = true) : Token.renderAll (a.lowered s).tokens = a.lower s := by
  cases a with
  | failed form d => exact Embed.render_error s form.leading d.fault.message
  | accepted attr =>
    cases attr with
    | plain form => rfl
    | directive form body => exact (h.genuine hsettled hquiet).render_native form.leading form.isInner

variable (hnative : Settings.isIdentifier s.native = true)
  (herror : Settings.isIdentifier s.errorName = true)

include hnative herror

/-- Wherever the annotation runs, the lowered form does. -/
theorem Scanned.carries_lowered (h : a.Scanned s) (hsettled : Token.Settled a.tokens)
    (hquiet : a.quiet = true) : Carries a.tokens (a.lowered s).tokens := by
  have hexchanges := exchanges_lowered h
  have hattr : a.isRewritten = true → a.form.IsAttribute := fun ha =>
    h.proper.resolve_left (by simp [h.isDoc_of_isRewritten ha])
  have htext := h.render_lowered hsettled hquiet
  cases a with
  | failed form d =>
    obtain ⟨more, hmore⟩ : ∃ more, Embed.attributeText s [] d.fault.message = '#' :: '[' :: more :=
      ⟨_, rfl⟩
    have hlower : lower s (failed form d) = form.leading ++ '#' :: '[' :: more := by
      rw [← hmore]
      simp [lower, Embed.attributeText]
    exact Carries.exchange (hattr rfl) (Embed.isAttribute_error s _ _)
      ⟨hexchanges.leading, hexchanges.outer⟩ (Embed.behind_error herror _ _) rfl
      (htext.trans hlower)
  | accepted attr =>
    cases attr with
    | plain form => exact .refl form.tokens
    | directive form body =>
      have hbehind :=
        (h.genuine hsettled hquiet).behind_native hnative form.leading form.isInner
      obtain ⟨c, more, hc, hmore⟩ : ∃ c more, isSeam c = true ∧
          body.native s form.isInner = '#' :: c :: more := by
        cases form.isInner with
        | false => exact ⟨'[', _, rfl, rfl⟩
        | true => exact ⟨'!', _, rfl, rfl⟩
      have hlower : lower s (accepted (.directive form body)) =
          form.leading ++ '#' :: c :: more := by
        rw [lower, hmore]
      exact Carries.exchange (hattr rfl) (Body.isAttribute_native s _ _ body)
        ⟨hexchanges.leading, hexchanges.outer⟩ hbehind hc (htext.trans hlower)

end Attachment

/-! ## The output of a file -/

/-- The pieces of an item are filled alike if its annotations are. -/
theorem Item.fill_congr {g g' : Attachment → Text} {i : Item}
    (h : ∀ a ∈ i.attachments, g a = g' a) :
    i.pieces.flatMap (Piece.fill g) = i.pieces.flatMap (Piece.fill g') := by
  rw [attachments_eq] at h
  apply List.flatMap_congr
  intro p hp
  cases p with
  | fixed text => rfl
  | slot point =>
    exact List.flatMap_congr fun a ha => h a (List.mem_flatMap.2 ⟨.slot point, hp, ha⟩)

section Output

variable {s : Settings} {t : Text} {stream : TokenStream} (h : tokenize t = .ok stream)
  (hquiet : ∀ i ∈ Item.parseAll s stream.tokens, ∀ a ∈ i.attachments, a.quiet = true)

include h hquiet

/-- The output is the text of the lowered tokens. -/
theorem text_transform :
    (transform s t).text =
      Token.renderAll ((Item.parseAll s stream.tokens).flatMap
        (Item.fill fun a => (a.lowered s).tokens)) ++ stream.trailing := by
  rw [transform_eq s h, Token.renderAll_flatMap]
  refine congrArg (· ++ stream.trailing) (List.flatMap_congr fun i hi => ?_)
  rw [Item.render_fill fun _ => rfl, Item.lower_eq_fill]
  refine Item.fill_congr fun a ha => ?_
  exact ((Item.parseAll_scanned hi ha).render_lowered (Item.settled_of_tokenize h hi ha)
    (hquiet i hi a ha)).symm

/-- The output is read as the lowered tokens. -/
theorem tokenize_transform (hnative : Settings.isIdentifier s.native = true)
    (herror : Settings.isIdentifier s.errorName = true) (hstart : Trivia.steadyStart t = true) :
    ∃ stream', tokenize (transform s t).text = .ok stream' ∧
      stream'.trailing = stream.trailing ∧
      Token.forgetAll stream'.tokens = Token.forgetAll ((Item.parseAll s stream.tokens).flatMap
        (Item.fill fun a => (a.lowered s).tokens)) := by
  have hcarries : Carries ((Item.parseAll s stream.tokens).flatMap (Item.fill Attachment.tokens))
      ((Item.parseAll s stream.tokens).flatMap (Item.fill fun a => (a.lowered s).tokens)) :=
    compatible_carries.flatMap fun i hi => compatible_carries.item fun a ha =>
      (Item.parseAll_scanned hi ha).carries_lowered hnative herror
        (Item.settled_of_tokenize h hi ha) (hquiet i hi a ha)
  rw [text_transform h hquiet]
  exact (hcarries.of_forgetAll (Item.parseAll_tokens s stream.tokens).symm).tokenize h hstart

end Output

end CondAttrs
