import CondAttrs.Proofs.Lexical.Comment

/-!
# Literals

A literal with quotes goes from its opening to its closing quote, whatever stands between them:
a comment or an attribute inside it is part of the literal. What closes it is told by its opening.
Behind a quote it is the next quote that no backslash escapes; behind the quote of a raw string it
is the first quote with as many hashes as there were in front. Word characters may follow as a
suffix.

Quotation marks are found nowhere else: a token that holds one is a literal or documentation.

## Main definitions

* `Literal.Quoted`, `Literal.Enclosed`: what follows the opening quote.
* `Literal.Whole`: the literals.
* `Glyph.Apart`: a token that is not confused with what stands around it.

## Main statements

* `Literal.whole_of_readMarked`, `Glyph.Fits.apart`: what is read as a literal is a whole one.
-/

namespace CondAttrs

namespace Literal

/-! ## The extent of literals -/

/-- What follows an opening quote, up to and with the first quote that is not escaped. -/
inductive Quoted (quote : Char) : Text → Prop where
  | close : Quoted quote [quote]
  | escape {c : Char} {rest : Text} (hrest : Quoted quote rest) : Quoted quote ('\\' :: c :: rest)
  | char {c : Char} {rest : Text} (hquote : c ≠ quote) (hescape : c ≠ '\\')
      (hrest : Quoted quote rest) : Quoted quote (c :: rest)

/-- What follows the opening quote of a raw string: it ends with its closing mark, which does not
occur before. -/
def Enclosed (hashes : Nat) (body : Text) : Prop :=
  rawClosing hashes <:+ body ∧ ∀ u v, body = u ++ rawClosing hashes ++ v → v = []

/-- The literals: strings, characters, raw strings and numbers. -/
inductive Whole : Text → Prop where
  | string {mark body suffix : Text} (hmark : mark = [] ∨ mark = ['b'] ∨ mark = ['c'])
      (hbody : Quoted '"' body) (hsuffix : ∀ c ∈ suffix, isWordPart c = true) :
      Whole (mark ++ ['"'] ++ body ++ suffix)
  | character {mark body suffix : Text} (hmark : mark = [] ∨ mark = ['b'])
      (hbody : Quoted '\'' body) (hsuffix : ∀ c ∈ suffix, isWordPart c = true) :
      Whole (mark ++ ['\''] ++ body ++ suffix)
  | raw {mark body suffix : Text} {hashes : Nat}
      (hmark : mark = ['r'] ∨ mark = ['b', 'r'] ∨ mark = ['c', 'r'])
      (hbody : Enclosed hashes body) (hsuffix : ∀ c ∈ suffix, isWordPart c = true) :
      Whole (mark ++ (List.replicate hashes '#' ++ '"' :: body) ++ suffix)
  | number {c : Char} {more : Text} (hc : Text.isDigit c = true)
      (hmore : ∀ d ∈ more, isWordPart d = true ∨ d ∈ ['.', '+', '-']) : Whole (c :: more)

theorem quoted_of_quotedBody {quote : Char} {t body after : Text}
    (h : quotedBody quote t = some (body, after)) : Quoted quote body := by
  fun_induction quotedBody quote t generalizing body with
  | case1 => cases h
  | case2 => cases h
  | case3 c rest ih =>
    simp only [Option.map_eq_some_iff, Prod.mk.injEq, Prod.exists] at h
    obtain ⟨b, a, hb, rfl, rfl⟩ := h
    exact .escape (ih hb)
  | case4 =>
    simp only [Option.some.injEq, Prod.mk.injEq] at h
    obtain ⟨rfl, rfl⟩ := h
    exact .close
  | case5 c rest hlast hescape hc ih =>
    simp only [Option.map_eq_some_iff, Prod.mk.injEq, Prod.exists] at h
    obtain ⟨b, a, hb, rfl, rfl⟩ := h
    refine .char hc ?_ (ih hb)
    rintro rfl
    cases rest with
    | nil => exact hlast rfl rfl
    | cons d r => exact hescape d r rfl rfl

/-- No earlier place of a text holds the word at which it was split. -/
theorem splitAtWord_first {word t before after u v : Text}
    (h : Text.splitAtWord word t = some (before, after)) (ht : t = u ++ word ++ v) :
    before.length ≤ u.length := by
  subst ht
  induction u generalizing before with
  | nil =>
    have hword : word.isPrefixOf (word ++ v) = true :=
      List.isPrefixOf_iff_prefix.2 (List.prefix_append word v)
    rw [List.nil_append] at h
    cases hwv : word ++ v with
    | nil => simp_all [Text.splitAtWord]
    | cons c rest => simp_all [Text.splitAtWord]
  | cons c u ih =>
    simp only [List.cons_append, Text.splitAtWord] at h
    split at h
    · simp only [Option.some.injEq, Prod.mk.injEq] at h
      simp [← h.1]
    · simp only [Option.map_eq_some_iff, Prod.mk.injEq, Prod.exists] at h
      obtain ⟨b, a, hb, rfl, rfl⟩ := h
      exact Nat.succ_le_succ (ih hb)

theorem enclosed_of_splitAtWord {hashes : Nat} {inside after : Text}
    (h : Text.splitAtWord (rawClosing hashes) (inside ++ rawClosing hashes ++ after) =
      some (inside, after)) : Enclosed hashes (inside ++ rawClosing hashes) := by
  refine ⟨List.suffix_append _ _, fun u v huv => ?_⟩
  have hfirst := splitAtWord_first h (u := u) (v := v ++ after) (by rw [huv]; simp)
  have hlength := congrArg List.length huv
  simp only [List.length_append] at hlength
  exact List.length_eq_zero_iff.1 (by omega)

theorem whole_of_readRaw {mark t text after : Text}
    (hmark : mark = ['r'] ∨ mark = ['b', 'r'] ∨ mark = ['c', 'r'])
    (h : readRaw mark t = .ok (some (text, after))) : Whole text := by
  obtain ⟨hashes, inside, suffix, -, hinside, hsuffix, rfl⟩ := readRaw_eq_some_iff.1 h
  exact .raw hmark (enclosed_of_splitAtWord hinside) (spanWord_eq_iff.1 hsuffix).1

theorem whole_of_readString {t text after : Text} (mark : Text)
    (hmark : mark = [] ∨ mark = ['b'] ∨ mark = ['c'])
    (h : readQuoted (mark ++ ['"']) '"' t = .ok (text, after)) : Whole text := by
  obtain ⟨body, suffix, hbody, hsuffix, rfl⟩ := readQuoted_eq_ok_iff.1 h
  exact .string hmark (quoted_of_quotedBody hbody) (spanWord_eq_iff.1 hsuffix).1

theorem whole_of_readCharacter {t text after : Text} (mark : Text) (hmark : mark = [] ∨ mark = ['b'])
    (h : readQuoted (mark ++ ['\'']) '\'' t = .ok (text, after)) : Whole text := by
  obtain ⟨body, suffix, hbody, hsuffix, rfl⟩ := readQuoted_eq_ok_iff.1 h
  exact .character hmark (quoted_of_quotedBody hbody) (spanWord_eq_iff.1 hsuffix).1

/-- A literal with a type letter is a whole one. -/
theorem whole_of_readMarked {t text after : Text} (h : readMarked t = .ok (some (text, after))) :
    Whole text := by
  unfold readMarked at h
  split at h
  · exact whole_of_readRaw (by simp) h
  · exact whole_of_readRaw (by simp) h
  · exact whole_of_readRaw (by simp) h
  · exact whole_of_readString ['b'] (by simp) (map_some_eq_iff.1 h)
  · exact whole_of_readString ['c'] (by simp) (map_some_eq_iff.1 h)
  · exact whole_of_readCharacter ['b'] (by simp) (map_some_eq_iff.1 h)
  · cases h

/-- Numbers are made of word characters, points and signs. -/
theorem spanNumber_chars (plain point : Bool) (t : Text) :
    ∀ c ∈ (spanNumber plain point t).1, isWordPart c = true ∨ c ∈ ['.', '+', '-'] := by
  fun_induction spanNumber plain point t with
  | case1 => simp
  | case2 _ c hc => simpa using .inl hc
  | case3 => simp
  | case4 point c d rest h ih =>
    simp only [Bool.and_eq_true, Bool.or_eq_true, decide_eq_true_eq] at h
    obtain ⟨⟨-, hc⟩, hd⟩ := h
    intro x hx
    simp only [List.mem_cons] at hx
    rcases hx with rfl | rfl | hx
    · rcases hc with rfl | rfl <;> exact .inl (by decide)
    · rcases hd with rfl | rfl <;> exact .inr (by decide)
    · exact ih x hx
  | case5 point c d rest _ hc ih =>
    intro x hx
    rcases List.mem_cons.1 hx with rfl | hx
    · exact .inl hc
    · exact ih x hx
  | case6 point c d rest _ _ h ih =>
    simp only [Bool.and_eq_true, decide_eq_true_eq] at h
    obtain ⟨⟨⟨rfl, -⟩, -⟩, -⟩ := h
    intro x hx
    rcases List.mem_cons.1 hx with rfl | hx
    · exact .inr (by decide)
    · exact ih x hx
  | case7 => simp

theorem whole_of_readNumber {c : Char} {t : Text} (hc : Text.isDigit c = true) :
    Whole (readNumber (c :: t)).1 := by
  have hchars := spanNumber_chars (!hasRadix (c :: t)) false (c :: t)
  have happend := spanNumber_append (!hasRadix (c :: t)) false (c :: t)
  rw [← readNumber] at hchars happend
  obtain ⟨d, more, hmore⟩ := List.exists_cons_of_ne_nil (l := (readNumber (c :: t)).1)
    (spanNumber_fst_ne_nil (isWordPart_of_isDigit hc))
  rw [hmore] at hchars happend ⊢
  obtain ⟨rfl, -⟩ := List.cons.inj happend
  exact .number hc fun x hx => hchars x (List.mem_cons_of_mem _ hx)

end Literal

/-! ## Tokens -/

/-- A token that is read in front of `rest` is not confused with what may stand around it: it
starts neither with a blank character nor with an ordinary comment, documentation and literals are
whole, and no other token holds a quotation mark. -/
structure Glyph.Apart (g : Glyph) (rest : Text) : Prop where
  notEmpty : g.text ≠ []
  notBlank : g.text.head?.any Text.isBlank = false
  notComment : startsComment g.text = false ∧ startsComment (g.text ++ rest) = false
  doc : ∀ marker value, g = .atom (.doc marker value) → WholeDoc g.text value rest
  literal : ∀ text, g = .atom (.literal text) → Literal.Whole text
  quotation : '"' ∈ g.text →
    (∃ marker value, g = .atom (.doc marker value)) ∨ ∃ text, g = .atom (.literal text)

namespace Atom

theorem quotation_not_mem_word {w : Text} (h : ∀ c ∈ w, isWordPart c = true) : '"' ∉ w := by
  intro hmem
  exact absurd (h '"' hmem) (by decide)

theorem readIdent_quotation (t : Text) :
    ∃ name, (readIdent t).1 = .ident name ∧ '"' ∉ name := by
  have hword : ∀ t, '"' ∉ (spanWord t).1 := fun t =>
    quotation_not_mem_word fun _ hc => spanWord_forall hc
  unfold readIdent
  split
  · split
    · exact ⟨_, rfl, by simp [hword]⟩
    · exact ⟨_, rfl, hword _⟩
  · exact ⟨_, rfl, hword _⟩

/-- A token is documentation, or a whole literal, or it holds no quotation mark. -/
theorem read_whole {c : Char} {t rest : Text} {a : Atom} (h : Atom.read c t = .ok (a, rest)) :
    (∃ marker value, a = .doc marker value) ∨ (∃ text, a = .literal text ∧ Literal.Whole text) ∨
      '"' ∉ a.text ∧ ∀ text, a ≠ .literal text := by
  by_cases hopens : opensDoc (c :: t) = true
  · exact .inl (exists_doc_of_opensDoc h hopens)
  refine .inr ?_
  rw [Atom.read, docMarker_eq_none_iff.2 (Bool.eq_false_iff.2 hopens)] at h
  simp only at h
  split at h
  · unfold readWord at h
    split at h
    · cases h
    · rename_i hm
      cases h
      exact .inl ⟨_, rfl, Literal.whole_of_readMarked hm⟩
    · simp only [Except.ok.injEq] at h
      obtain ⟨name, hname, hquote⟩ := readIdent_quotation (c :: t)
      rw [h] at hname
      obtain rfl : a = .ident name := hname
      exact .inr ⟨hquote, by simp⟩
  split at h
  · rename_i hdigit
    cases h
    exact .inl ⟨_, rfl, Literal.whole_of_readNumber hdigit⟩
  split at h
  · cases t with
    | nil => cases h
    | cons d t =>
      rw [readApostrophe_cons] at h
      split at h
      · obtain ⟨text, rfl, hr⟩ := map_literal_eq_iff.1 h
        exact .inl ⟨text, rfl, Literal.whole_of_readCharacter [] (.inl rfl) hr⟩
      split at h
      · cases h
        refine .inr ⟨?_, by simp⟩
        have hword := quotation_not_mem_word fun c hc => spanWord_forall (t := d :: t) hc
        simp [Atom.text, hword]
      · cases h
  split at h
  · obtain ⟨text, rfl, hr⟩ := map_literal_eq_iff.1 h
    exact .inl ⟨text, rfl, Literal.whole_of_readString [] (.inl rfl) hr⟩
  split at h
  · rename_i hquote hpunct
    cases h
    refine .inr ⟨?_, by simp⟩
    simpa [Atom.text] using Ne.symm hquote
  · cases h

end Atom

/-- What lexing finds is set apart from its surroundings. -/
theorem Glyph.Fits.apart {g : Glyph} {rest : Text} (h : g.Fits rest) : g.Apart rest where
  notEmpty := h.ne_nil
  notBlank := h.isBlank_head
  notComment := ⟨h.startsComment_text, h.startsComment_append⟩
  doc := by
    rintro marker value rfl
    exact h.wholeDoc
  literal := by
    rintro text rfl
    obtain ⟨c, more, -, -, -, -, hread⟩ := fits_atom_iff.1 h
    rcases Atom.read_whole hread with ⟨marker, value, ha⟩ | ⟨text', ha, hwhole⟩ | ⟨-, ha⟩
    · cases ha
    · cases ha
      exact hwhole
    · exact absurd rfl (ha text)
  quotation := by
    intro hquote
    cases g with
    | opening d => cases d <;> simp [text, Delimiter.opening] at hquote
    | closing d => cases d <;> simp [text, Delimiter.closing] at hquote
    | atom a =>
      obtain ⟨c, more, -, -, -, -, hread⟩ := fits_atom_iff.1 h
      rcases Atom.read_whole hread with ⟨marker, value, rfl⟩ | ⟨text', rfl, -⟩ | ⟨hnot, -⟩
      · exact .inl ⟨marker, value, rfl⟩
      · exact .inr ⟨text', rfl⟩
      · exact absurd hquote hnot

end CondAttrs
