import CondAttrs.Proofs.Reading.Accept
import CondAttrs.Proofs.Reading.Fill

/-!
# Token lists side by side

Two token lists that can be laid out in cells, so that readers go through them in step.
The layout is not a part of the relation: it is kept under composition and between
brackets, and does not depend on positions, so items whose annotations are exchanged for
others can be laid side by side with what they were.

## Main definitions

* `SideBySide`: the second list is the first one with attributes exchanged.
* `Attachment.Exchanges`: a form may take the place of an annotation.

## Main statements

* `compatible_sideBySide`: the relation is kept by what items are made of.
* `SideBySide.of_forgetAll`: it does not see positions.
* `SideBySide.exists_read`: annotations stand at the same places.
-/

namespace CondAttrs

/-- The trivia in front of the cell is the same on both sides, and no inner attribute takes
the place of an outer one. -/
def Cell.Aligned : Cell → Prop
  | same t t' => t'.leading = t.leading
  | swap f f' => f'.leading = f.leading ∧ (f.isInner = false → f'.isInner = false)

/-- The second list is the first one with some attributes exchanged for others. -/
def SideBySide (old new : List Token) : Prop :=
  ∃ cells : List Cell, (∀ c ∈ cells, c.Sound ∧ c.Aligned) ∧ Cell.olds cells = old ∧
    Cell.news cells = new

namespace SideBySide

theorem refl (ts : List Token) : SideBySide ts ts := by
  refine ⟨Cell.refl ts, fun c hc => ⟨Cell.sound_refl ts c hc, ?_⟩, Cell.olds_refl ts,
    Cell.news_refl ts⟩
  obtain ⟨t, -, rfl⟩ := List.mem_map.1 hc
  rfl

theorem append {first first' second second' : List Token} (h : SideBySide first first')
    (h' : SideBySide second second') : SideBySide (first ++ second) (first' ++ second') := by
  obtain ⟨cells, hs, rfl, rfl⟩ := h
  obtain ⟨cells', hs', rfl, rfl⟩ := h'
  refine ⟨cells ++ cells', fun c hc => ?_, Cell.olds_append cells cells',
    Cell.news_append cells cells'⟩
  rcases List.mem_append.1 hc with hc | hc
  · exact hs c hc
  · exact hs' c hc

theorem same {t t' : Token} (hface : t.face = t'.face) (hleading : t'.leading = t.leading) :
    SideBySide [t] [t'] :=
  ⟨[.same t t'], by simpa using ⟨hface, hleading⟩, rfl, rfl⟩

theorem swap {f f' : Form} (hf : f.IsAttribute) (hf' : f'.IsAttribute)
    (haligned : (Cell.swap f f').Aligned) : SideBySide f.tokens f'.tokens :=
  ⟨[.swap f f'], by simpa using ⟨⟨hf, hf'⟩, haligned⟩, by simp [Cell.old], by simp [Cell.new]⟩

/-- The lists can be read in step. -/
theorem exists_sound {old new : List Token} (h : SideBySide old new) :
    ∃ cells : List Cell, (∀ c ∈ cells, c.Sound) ∧ Cell.olds cells = old ∧
      Cell.news cells = new := by
  obtain ⟨cells, hs, ho, hn⟩ := h
  exact ⟨cells, fun c hc => (hs c hc).1, ho, hn⟩

/-- The second side starts with a token that is there on the first side too, or with an
attribute that takes the place of another. -/
theorem cons_cases {old new : List Token} {t' : Token} (h : SideBySide old (t' :: new)) :
    (∃ t rest, old = t :: rest ∧ t.face = t'.face ∧ t'.leading = t.leading ∧
      SideBySide rest new) ∨
    ∃ (f f' : Form) (rest rest' : List Token), old = f.tokens ++ rest ∧
      t' :: new = f'.tokens ++ rest' ∧ f.IsAttribute ∧ f'.IsAttribute ∧
      (Cell.swap f f').Aligned ∧ SideBySide rest rest' := by
  obtain ⟨cells, hs, rfl, hn⟩ := h
  cases cells with
  | nil => cases hn
  | cons c cells =>
    obtain ⟨⟨hsound, haligned⟩, hrest⟩ := List.forall_mem_cons.1 hs
    cases c with
    | same t u =>
      obtain ⟨rfl, rfl⟩ : u = t' ∧ Cell.news cells = new := by
        simpa [Cell.new] using hn
      exact .inl ⟨t, Cell.olds cells, by simp [Cell.old], hsound, haligned, cells, hrest, rfl, rfl⟩
    | swap f f' =>
      refine .inr ⟨f, f', Cell.olds cells, Cell.news cells, ?_, ?_, hsound.1, hsound.2, haligned,
        cells, hrest, rfl, rfl⟩
      · rw [Cell.olds_cons, Cell.old]
      · rw [← hn, Cell.news_cons, Cell.new]

/-- A token by which a reader is guided is there on both sides. -/
theorem cons_of_selects {p : Token → Bool} (hp : Token.Selects p) {old new : List Token}
    {t' : Token} (h : SideBySide old (t' :: new)) (ht : p t' = true) :
    ∃ t rest, old = t :: rest ∧ p t = true ∧ t.face = t'.face ∧ t'.leading = t.leading ∧
      SideBySide rest new := by
  rcases h.cons_cases with ⟨t, rest, hold, hface, hrest⟩ | ⟨f, f', rest, rest', -, hnew, -, hf', -⟩
  · exact ⟨t, rest, hold, by rw [hp.face hface, ht], hface, hrest⟩
  · obtain ⟨hash, more, bracket, htokens, hhash, -⟩ := hf'.tokens_eq
    rw [htokens, List.cons_append, List.cons.injEq] at hnew
    rw [hnew.1, hp.hash hhash] at ht
    cases ht

end SideBySide

/-- Lists side by side can be composed and put between brackets. -/
theorem compatible_sideBySide : Compatible SideBySide where
  refl := SideBySide.refl
  append := SideBySide.append
  group _ := SideBySide.same rfl rfl

/-! ## Positions -/

theorem Token.exists_append_of_forgetAll {ts first second : List Token}
    (h : forgetAll ts = forgetAll (first ++ second)) :
    ∃ first' second', ts = first' ++ second' ∧ forgetAll first' = forgetAll first ∧
      forgetAll second' = forgetAll second := by
  rw [forgetAll_append, forgetAll_eq_map ts] at h
  obtain ⟨first', second', hts, hfirst, hsecond⟩ := List.map_eq_append_iff.1 h
  exact ⟨first', second', hts, by rw [forgetAll_eq_map, hfirst], by rw [forgetAll_eq_map, hsecond]⟩

theorem Token.exists_singleton_of_forgetAll {ts : List Token} {t : Token}
    (h : forgetAll ts = forgetAll [t]) : ∃ t', ts = [t'] ∧ t'.forget = t.forget := by
  rw [forgetAll_eq_map] at h
  obtain ⟨t', rest, hts, ht, hrest⟩ := List.map_eq_cons_iff.1 h
  obtain rfl : rest = [] := List.map_eq_nil_iff.1 hrest
  exact ⟨t', hts, ht⟩

theorem Form.IsAttribute.isDoc {f : Form} (h : f.IsAttribute) : f.isDoc = false := by
  cases f with
  | doc => cases h
  | marked => rfl
  | bare => cases h

/-- An attribute is one wherever it stands. -/
theorem Form.IsAttribute.exists_of_forgetAll {f : Form} (h : f.IsAttribute) {tokens : List Token}
    (ht : Token.forgetAll tokens = Token.forgetAll f.tokens) :
    ∃ g : Form, g.IsAttribute ∧ g.tokens = tokens ∧ g.forget = f.forget := by
  obtain ⟨g, hg, htokens, hforget⟩ := Form.exists_of_forgetAll (.inr h) ht
  refine ⟨g, ?_, htokens, hforget⟩
  rcases hg with hdoc | hattr
  · rw [← isDoc_forget g, hforget, isDoc_forget, h.isDoc] at hdoc
    cases hdoc
  · exact hattr

theorem Cell.Aligned.of_forget {f f' g g' : Form} (h : (swap f f').Aligned)
    (hf : g.forget = f.forget) (hf' : g'.forget = f'.forget) : (swap g g').Aligned := by
  obtain ⟨hleading, houter⟩ := h
  constructor
  · rw [← Form.leading_forget g', hf', ← Form.leading_forget g, hf, Form.leading_forget,
      Form.leading_forget, hleading]
  · intro hg
    rw [← Form.isInner_forget g', hf', Form.isInner_forget]
    apply houter
    rw [← Form.isInner_forget f, ← hf, Form.isInner_forget, hg]

/-- Whether lists can be laid side by side does not depend on positions. -/
theorem SideBySide.of_forgetAll {old new old' new' : List Token} (h : SideBySide old new)
    (ho : Token.forgetAll old' = Token.forgetAll old)
    (hn : Token.forgetAll new' = Token.forgetAll new) : SideBySide old' new' := by
  obtain ⟨cells, hs, rfl, rfl⟩ := h
  induction cells generalizing old' new' with
  | nil =>
    rw [Token.forgetAll_eq_nil.1 ho, Token.forgetAll_eq_nil.1 hn]
    exact .refl []
  | cons c cells ih =>
    obtain ⟨⟨hsound, haligned⟩, hs⟩ := List.forall_mem_cons.1 hs
    rw [Cell.olds_cons] at ho
    rw [Cell.news_cons] at hn
    obtain ⟨first, rest, rfl, hfirst, hrest⟩ := Token.exists_append_of_forgetAll ho
    obtain ⟨first', rest', rfl, hfirst', hrest'⟩ := Token.exists_append_of_forgetAll hn
    refine .append ?_ (ih hs hrest hrest')
    cases c with
    | same t t' =>
      obtain ⟨u, rfl, hu⟩ := Token.exists_singleton_of_forgetAll hfirst
      obtain ⟨u', rfl, hu'⟩ := Token.exists_singleton_of_forgetAll hfirst'
      apply SideBySide.same
      · rw [Token.face_of_forget hu, Token.face_of_forget hu']
        exact hsound
      · rw [← Token.leading_forget u, ← Token.leading_forget u', hu, hu', Token.leading_forget,
          Token.leading_forget]
        exact haligned
    | swap f f' =>
      obtain ⟨g, hg, rfl, hforget⟩ := hsound.1.exists_of_forgetAll hfirst
      obtain ⟨g', hg', rfl, hforget'⟩ := hsound.2.exists_of_forgetAll hfirst'
      exact .swap hg hg' (haligned.of_forget hforget hforget')

/-! ## Annotations -/

theorem Token.selects_isDoc : Selects isDoc where
  face := isDoc_face
  hash h := by
    obtain ⟨_, _, _, rfl⟩ := isPunct_iff.1 h
    rfl

/-- An annotation on the second side stands where one stands on the first side, and it is
outer if that one is. -/
theorem SideBySide.exists_read {old new : List Token} (h : SideBySide old new) {f' : Form}
    {rest' : List Token} (hnew : Form.read new = some (f', rest')) :
    ∃ f rest, Form.read old = some (f, rest) ∧ (f.isInner = false → f'.isInner = false) := by
  have hproper := Form.proper_of_read hnew
  have happend := Form.read_append hnew
  rw [← happend] at h
  cases f' with
  | bare =>
    rcases hproper with hdoc | hattr
    · cases hdoc
    · cases hattr
  | doc leading' pos' marker value =>
    obtain ⟨t, rest, rfl, -, hface, -⟩ := h.cons_of_selects Token.selects_isDoc rfl
    cases t with
    | group => cases hface
    | atom leading pos a =>
      cases hface
      exact ⟨.doc leading pos marker value, rest, rfl, id⟩
  | marked hash' bang' bracket' =>
    obtain ⟨hhash, hbang, hbracket⟩ : (Form.marked hash' bang' bracket').IsAttribute := by
      rcases hproper with hdoc | hattr
      · cases hdoc
      · exact hattr
    rcases h.cons_cases with ⟨t, rest, rfl, hface, -, hrest⟩ |
      ⟨f, g', rest, more', rfl, hmore, hf, hg', haligned, -⟩
    · -- the marks are on the first side too, and start an attribute there
      have ht : t.isPunct '#' = true := by rw [Token.isPunct_face _ hface, hhash]
      cases bang' with
      | none =>
        obtain ⟨u, more, rfl, hu, -⟩ :=
          hrest.cons_of_selects (Token.selects_isGroup .bracket) hbracket
        have hattr : (Form.marked t none u).IsAttribute := ⟨ht, by simp, hu⟩
        exact ⟨_, more, hattr.read more, id⟩
      | some bang' =>
        obtain ⟨u, more, rfl, hu, -, -, hmore⟩ :=
          hrest.cons_of_selects (Token.selects_isPunct (c := '!') (by decide)) (hbang bang' rfl)
        obtain ⟨w, more, rfl, hw, -⟩ :=
          hmore.cons_of_selects (Token.selects_isGroup .bracket) hbracket
        have hattr : (Form.marked t (some u) w).IsAttribute := ⟨ht, by simpa using hu, hw⟩
        exact ⟨_, more, hattr.read more, id⟩
    · have hsame : Form.read new = some (g', more') := by
        rw [← happend, ← hg'.read more', ← hmore]
        rfl
      rw [hnew] at hsame
      cases hsame
      exact ⟨f, rest, hf.read rest, haligned.2⟩

/-- Where no annotation starts on the first side, none starts on the second. -/
theorem SideBySide.read_eq_none {old new : List Token} (h : SideBySide old new)
    (hold : Form.read old = none) : Form.read new = none := by
  cases hnew : Form.read new with
  | none => rfl
  | some r =>
    obtain ⟨f, rest, hread, -⟩ := h.exists_read hnew
    rw [hold] at hread
    cases hread

namespace Attachment

/-- The form may take the place of the annotation. -/
structure Exchanges (a : Attachment) (f : Form) : Prop where
  doc : a.form.isDoc = true → f = a.form
  marked : a.form.isDoc = false → f.IsAttribute
  leading : f.leading = a.form.leading
  outer : a.form.isInner = false → f.isInner = false

theorem Exchanges.proper {a : Attachment} {f : Form} (h : Exchanges a f) (ha : a.form.Proper) :
    f.Proper := by
  cases hdoc : a.form.isDoc with
  | true =>
    rw [h.doc hdoc]
    exact ha
  | false => exact .inr (h.marked hdoc)

theorem Exchanges.sideBySide {a : Attachment} {f : Form} (h : Exchanges a f)
    (ha : a.form.Proper) : SideBySide a.tokens f.tokens := by
  rcases ha with hdoc | hattr
  · rw [h.doc hdoc]
    exact .refl _
  · exact .swap hattr (h.marked hattr.isDoc) ⟨h.leading, h.outer⟩

end Attachment

end CondAttrs
