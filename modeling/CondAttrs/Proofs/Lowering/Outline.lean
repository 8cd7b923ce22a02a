import CondAttrs.Proofs.Lowering.Output
import Mathlib.Data.List.TakeWhile

/-!
# The structure of the output

Expansion keeps the structure of a file. The items of the output are of the same kinds as
those of the source, in the same order. They have the same attachment points with the same
names at the same places, and at each point as many annotations as before, inner ones where
they were inner.

An inner annotation with a fault is left aside: the attribute that carries the fault is an
outer one, and belongs to what follows.

## Main definitions

* `Item.outline`: the kind of an item and its attachment points, with the placement of
  their annotations.

## Main statements

* `Item.parseAll_renews`: the items of a file are found again one by one.
* `transform_outline`: source and output have the same outline.
* `outline_transform_ne`: the conditions cannot be left out.
-/

namespace CondAttrs

/-- The kind, name and place of a point, and which of its annotations are inner ones. -/
def Point.outline (p : Point) : Site × Text × Text × List Bool :=
  (p.site, p.name, p.pointer, p.attachments.map fun a => a.form.isInner)

/-- The kind of an item and its attachment points. -/
def Item.outline (i : Item) : Text × List (Site × Text × Text × List Bool) :=
  (i.label, i.points.map Point.outline)

/-- Lists that are related entry by entry through a function have the same values. -/
theorem map_eq_of_forall₂ {α β : Type} {f : α → β} {l l' : List α}
    (h : List.Forall₂ (fun a a' => f a' = f a) l l') : l'.map f = l.map f := by
  induction h with
  | nil => rfl
  | cons hab _ ih => rw [List.map_cons, List.map_cons, hab, ih]

section Renews

variable {s : Settings} {put : Attachment → Form}

/-- Points at which annotations are exchanged for such of the same placement. -/
theorem Point.Renews.outline {base : Text} {p p' : Point} (h : p.Renews s put base base p')
    (hput : ∀ a ∈ p.attachments, (put a).isInner = a.form.isInner) : p'.outline = p.outline := by
  obtain ⟨path, hp, hp'⟩ := h.pointer
  have hinner : p'.attachments.map (fun a => a.form.isInner) =
      p.attachments.map fun a => a.form.isInner := by
    apply map_eq_of_forall₂
    have hboth := (List.forall₂_and_left _ _).2 ⟨hput, h.attachments⟩
    refine hboth.imp fun a a' ⟨ha, hrenews⟩ => ?_
    rw [← ha, ← Form.isInner_forget a'.form, hrenews.2, Form.isInner_forget]
  rw [Point.outline, Point.outline, h.site, h.name, hp, hp', hinner]

theorem Item.Renews.outline {base : Text} {i i' : Item} (h : Renews s put base base i i')
    (hput : ∀ a ∈ i.attachments, (put a).isInner = a.form.isInner) : i'.outline = i.outline := by
  have hpoints : i'.points.map Point.outline = i.points.map Point.outline := by
    apply map_eq_of_forall₂
    have hmem : ∀ p ∈ i.points, ∀ a ∈ p.attachments, (put a).isInner = a.form.isInner :=
      fun p hp a ha => hput a (List.mem_flatMap.2 ⟨p, hp, ha⟩)
    have hboth := (List.forall₂_and_left _ _).2 ⟨hmem, h.points⟩
    exact hboth.imp fun p p' ⟨hp, hrenews⟩ => hrenews.outline hp
  rw [Item.outline, Item.outline, h.label, hpoints]

/-- The items of a file are found again one by one if no annotation leaves its head. -/
theorem Item.parseAll_renews (hput : Replaces s put) {tokens tokens' : List Token}
    (hinner : ∀ a ∈ Attachment.ofForms s (pointerOf 0) (headForms tokens), (put a).isInner = true)
    (h : Token.forgetAll tokens' =
      Token.forgetAll ((parseAll s tokens).flatMap (fill fun a => (put a).tokens))) :
    List.Forall₂ (fun i i' => ∃ base, Renews s put base base i i') (parseAll s tokens)
      (parseAll s tokens') := by
  -- the head stays as a whole, and so does what is behind it
  have hagain : ∀ {index : Nat},
      Token.forgetAll tokens' = Token.forgetAll
        ((Attachment.ofForms s (pointerOf 0) (headForms tokens)).flatMap (fun a => (put a).tokens) ++
          (parseFrom s index (behindHead tokens)).flatMap (fill fun a => (put a).tokens)) →
      List.Forall₂ Form.Recurs
        ((Attachment.ofForms s (pointerOf 0) (headForms tokens)).map put) (headForms tokens') ∧
      List.Forall₂ (fun i i' => ∃ base, Renews s put base base i i')
        (parseFrom s index (behindHead tokens)) (parseFrom s index (behindHead tokens')) := by
    intro index hfill
    obtain ⟨forms, rest', hrecurs, hhead, hbehind, hrest⟩ := head_again hput hfill
    have hall : ∀ f ∈ forms, f.isInner = true := by
      intro f hf
      obtain ⟨g, hg, -, hforget⟩ := exists_of_forall₂ hrecurs hf
      obtain ⟨a, ha, rfl⟩ := List.mem_map.1 hg
      rw [← Form.isInner_forget f, hforget, Form.isInner_forget, hinner a ha]
    rw [List.takeWhile_eq_self_iff.2 hall] at hhead
    rw [List.dropWhile_eq_nil_iff.2 hall, List.flatMap_nil, List.nil_append] at hbehind
    rw [hhead, hbehind]
    exact ⟨hrecurs, (parseFrom_again hput hrest).imp fun i i' ⟨n, hn⟩ => ⟨_, hn⟩⟩
  have hempty : ∀ {forms : List Form}, List.Forall₂ Form.Recurs
      ((Attachment.ofForms s (pointerOf 0) (headForms tokens)).map put) forms →
      (forms = [] ↔ headForms tokens = []) := by
    intro forms hrecurs
    have hlength := hrecurs.length_eq
    rw [List.length_map, Attachment.ofForms, List.length_mapIdx] at hlength
    rw [← List.length_eq_zero_iff, ← hlength, List.length_eq_zero_iff]
  rcases parseAll_cases s tokens with ⟨hnil, hparse⟩ | ⟨hne, hparse⟩
  · rw [hparse] at h ⊢
    obtain ⟨hhead, hitems⟩ := @hagain 0 (by rw [hnil]; exact h)
    rcases parseAll_cases s tokens' with ⟨-, hparse'⟩ | ⟨hne', -⟩
    · rw [hparse']
      exact hitems
    · exact absurd ((hempty hhead).2 hnil) hne'
  · rw [hparse] at h ⊢
    obtain ⟨hhead, hitems⟩ := @hagain 1 h
    rcases parseAll_cases s tokens' with ⟨hnil', -⟩ | ⟨-, hparse'⟩
    · exact absurd ((hempty hhead).1 hnil') hne
    · rw [hparse']
      refine .cons ⟨pointerOf 0, rfl, .cons ⟨rfl, rfl, ⟨[], ?_, ?_⟩, ?_⟩ .nil⟩ hitems
      · exact (List.append_nil _).symm
      · exact (List.append_nil _).symm
      · exact Attachment.renews_ofForms hhead (pointerOf 0)

end Renews

/-- An annotation without a fault is lowered to one of the same placement. -/
theorem Attachment.isInner_lowered {s : Settings} {a : Attachment}
    (h : a.form.isInner = true → a.fault? = none) :
    (a.lowered s).isInner = a.form.isInner := by
  cases a with
  | failed form d =>
    have houter : form.isInner = false := Bool.eq_false_iff.2 fun hinner => nomatch h hinner
    exact houter.symm
  | accepted attr =>
    cases attr with
    | plain form => rfl
    | directive form body => exact Body.isInner_native s _ _ body

/-- The output of a file has the structure of the file, if no inner annotation has a fault. -/
theorem transform_outline {s : Settings} (hnative : Settings.isIdentifier s.native = true)
    (herror : Settings.isIdentifier s.errorName = true) {t : Text} {stream : TokenStream}
    (htokenize : tokenize t = .ok stream) (hstart : Trivia.steadyStart t = true)
    (hquiet : ∀ i ∈ Item.parseAll s stream.tokens, ∀ a ∈ i.attachments, a.quiet = true)
    (hinner : ∀ i ∈ Item.parseAll s stream.tokens, ∀ a ∈ i.attachments,
      a.form.isInner = true → a.fault? = none) :
    ∃ stream', tokenize (transform s t).text = .ok stream' ∧
      (Item.parseAll s stream'.tokens).map Item.outline =
        (Item.parseAll s stream.tokens).map Item.outline := by
  obtain ⟨stream', hout, -, htokens⟩ :=
    tokenize_transform htokenize hquiet hnative herror hstart
  refine ⟨stream', hout, ?_⟩
  have hput : ∀ i ∈ Item.parseAll s stream.tokens, ∀ a ∈ i.attachments,
      (a.lowered s).isInner = a.form.isInner :=
    fun i hi a ha => Attachment.isInner_lowered (hinner i hi a ha)
  have hhead : ∀ a ∈ Attachment.ofForms s (Item.pointerOf 0) (Item.headForms stream.tokens),
      (a.lowered s).isInner = true := by
    intro a ha
    rcases Item.parseAll_cases s stream.tokens with ⟨hnil, -⟩ | ⟨-, hparse⟩
    · rw [hnil] at ha
      cases ha
    · rw [hput _ (hparse ▸ List.mem_cons_self) a (by rwa [Item.attachments_enclosing])]
      obtain ⟨index, hindex, rfl⟩ := List.mem_mapIdx.1 ha
      rw [Attachment.form_ofForm]
      exact List.mem_takeWhile_imp (List.getElem_mem hindex)
  apply map_eq_of_forall₂
  have hboth := (List.forall₂_and_left _ _).2
    ⟨hput, Item.parseAll_renews (replaces_lowered s) hhead htokens⟩
  exact hboth.imp fun i i' ⟨hi, base, hrenews⟩ => hrenews.outline hi

/-- Behind an interpreter line, inner and outer annotations of a file and of its members, with
faults at a variant and at a field. -/
theorem transform_outline_mixed :
    let t : Text :=
      "#!/bin/sh\n#![cfg_attrs(a, b)] #![c]\n#[cfg_attrs()] enum E \x7b #[cfg_attrs(c, /// d\n" ++
        " #[e])] V(#![f] #[cfg_attrs] u8) = 1 \x7d impl X \x7b \x7d"
    (transform {} t).text ≠ t ∧ ∃ stream stream', tokenize t = .ok stream ∧
      tokenize (transform {} t).text = .ok stream' ∧
      (Item.parseAll {} stream'.tokens).map Item.outline =
        (Item.parseAll {} stream.tokens).map Item.outline := by
  intro t
  obtain ⟨stream, htokenize, htest⟩ := @exists_of_tokenize t
    (fun stream => (Item.parseAll {} stream.tokens).all fun i => i.attachments.all fun a =>
      a.quiet && (!a.form.isInner || a.fault?.isNone))
    (by decide +kernel)
  simp only [List.all_eq_true, Bool.and_eq_true, Bool.or_eq_true, Bool.not_eq_true',
    Option.isNone_iff_eq_none] at htest
  obtain ⟨stream', hout, houtline⟩ := transform_outline (by decide) (by decide) htokenize
    (by decide +kernel) (fun i hi a ha => (htest i hi a ha).1) fun i hi a ha hinner =>
      (htest i hi a ha).2.resolve_left (by simp [hinner])
  exact ⟨by decide +kernel, stream, stream', htokenize, hout, houtline⟩

/-- A faulty inner directive at the head of a file becomes an outer attribute, and with it an
annotation of the declaration behind it. An interpreter line that leaves a comment open is none
any more when the end of the comment has gone: the output cannot be read, or it is read as the
attribute behind the comment. -/
theorem outline_transform_ne :
    (["#![cfg_attrs] struct S;", "#! /*\n#[cfg_attrs(a, b // */ x\n)] struct B;",
        "#! /*\n#[cfg_attrs(a, b // */ x\n)] struct B; // */\n[cfg_attrs(c, d)]"] :
        List Text).Forall fun t =>
      ∃ stream, tokenize t = .ok stream ∧
        (∀ i ∈ Item.parseAll {} stream.tokens, ∀ a ∈ i.attachments, a.quiet = true) ∧
        ¬ ∃ stream', tokenize (transform {} t).text = .ok stream' ∧
          (Item.parseAll {} stream'.tokens).map Item.outline =
            (Item.parseAll {} stream.tokens).map Item.outline := by
  have hall : ∀ t ∈ (["#![cfg_attrs] struct S;", "#! /*\n#[cfg_attrs(a, b // */ x\n)] struct B;",
      "#! /*\n#[cfg_attrs(a, b // */ x\n)] struct B; // */\n[cfg_attrs(c, d)]"] : List Text),
      (tokenize t).toOption.any (fun stream =>
        ((Item.parseAll {} stream.tokens).all fun i => i.attachments.all Attachment.quiet) &&
        (tokenize (transform {} t).text).toOption.all fun stream' =>
          (Item.parseAll {} stream'.tokens).length != (Item.parseAll {} stream.tokens).length) =
        true := by
    decide +kernel
  refine List.forall_iff_forall_mem.2 fun t ht => ?_
  obtain ⟨stream, htokenize, htest⟩ := exists_of_tokenize (hall t ht)
  simp only [Bool.and_eq_true, List.all_eq_true] at htest
  obtain ⟨hquiet, hlengths⟩ := htest
  refine ⟨stream, htokenize, hquiet, ?_⟩
  rintro ⟨stream', hout, houtline⟩
  rw [hout] at hlengths
  have hlength := congrArg List.length houtline
  rw [List.length_map, List.length_map] at hlength
  exact bne_iff_ne.1 hlengths hlength

end CondAttrs
