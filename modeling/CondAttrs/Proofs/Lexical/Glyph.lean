import CondAttrs.Proofs.Lexical.Echo
import CondAttrs.Proofs.Lexical.Trivia
import CondAttrs.Text.Quoted

/-!
# Tokens in other surroundings

`Glyph.Fits g rest` says that `g` is what lexing finds in front of `rest`. A glyph
that fits in front of one text fits in front of every text that echoes it, with three
provisos. A punctuation character records whether punctuation follows it, so that
record is made anew (`Glyph.rejoin`). A line of documentation needs the end of its
line behind it and tolerates no seam. Two single quotes are read as a literal only if a
third one follows (`Glyph.isQuotes`), so they need that quote behind them.

A text is *kin* to another if it echoes it, starts with the same character and ends a
line where the other does. In front of kin every glyph fits unchanged. Whatever stands
behind a further token is kin, and so is what stands behind a replaced annotation.

## Main definitions

* `Glyph.Fits`, `Glyph.rejoin`, `Kin`.

## Main statements

* `Glyph.Fits.echo`: a glyph fits in front of what echoes.
* `Glyph.Fits.kin`: it fits unchanged in front of kin.
* `Glyph.Fits.getLast_not_blank`: only a line of documentation ends with a blank.
-/

namespace CondAttrs

/-- Whether a token is a line of documentation. -/
def Atom.isDocLine : Atom → Bool
  | .doc marker _ => marker.isLine
  | _ => false

/-- The token with the record of the punctuation behind it made anew. -/
def Atom.rejoin (rest : Text) : Atom → Atom
  | .punct c _ => .punct c (rest.head?.any isPunctuation)
  | a => a

@[simp] theorem Atom.rejoin_text (rest : Text) (a : Atom) : (a.rejoin rest).text = a.text := by
  cases a <;> rfl

/-- Whether a glyph is a line of documentation. -/
def Glyph.isDocLine : Glyph → Bool
  | .atom a => a.isDocLine
  | _ => false

/-- Whether a glyph is two single quotes. -/
def Glyph.isQuotes (g : Glyph) : Bool :=
  g.text = ['\'', '\'']

/-- The glyph with the record of the punctuation behind it made anew. -/
def Glyph.rejoin (rest : Text) : Glyph → Glyph
  | .atom a => .atom (a.rejoin rest)
  | g => g

@[simp] theorem Glyph.rejoin_text (rest : Text) (g : Glyph) : (g.rejoin rest).text = g.text := by
  cases g <;> simp [Glyph.rejoin, Glyph.text]

/-- Lexing finds `g` in front of `rest`. -/
def Glyph.Fits (g : Glyph) (rest : Text) : Prop :=
  ∃ c more, g.text = c :: more ∧ Trivia.Stops (c :: (more ++ rest)) ∧
    Glyph.read c (more ++ rest) = .ok (g, rest)

/-! ## Where tokens start -/

namespace Trivia

theorem docMarker_none_of_ne {c : Char} (hc : c ≠ '/') (t : Text) :
    DocMarker.read (c :: t) = none := by
  unfold DocMarker.read
  split <;> simp_all

theorem stops_of_ne {c : Char} (hc : c ≠ '/') (hblank : Text.isBlank c = false) (t : Text) :
    Stops (c :: t) := by
  refine ⟨List.cons_ne_nil c t, ?_⟩
  simp [Trivia.next, hblank, docMarker_none_of_ne hc, hc]

theorem stops_of_docMarker {c : Char} {t : Text}
    (h : (DocMarker.read (c :: t)).isSome = true) (hblank : Text.isBlank c = false) :
    Stops (c :: t) := by
  refine ⟨List.cons_ne_nil c t, ?_⟩
  simp [Trivia.next, hblank, h]

/-- A slash is a token of its own unless a comment starts with it. -/
theorem stops_slash_iff {t : Text} (h : DocMarker.read ('/' :: t) = none) :
    Stops ('/' :: t) ↔ t.head? ≠ some '/' ∧ t.head? ≠ some '*' := by
  simp only [Stops, ne_eq, List.cons_ne_nil, not_false_eq_true, true_and, Trivia.next,
    isBlank_slash, Bool.false_eq_true, ↓reduceIte, h, Option.isSome_none]
  split
  · simp
  · split <;> simp
  · rename_i hline hblock
    simp only [true_iff]
    constructor
    · intro hh
      obtain ⟨r, rfl⟩ := List.head?_eq_some_iff.1 hh
      exact hline r rfl rfl
    · intro hh
      obtain ⟨r, rfl⟩ := List.head?_eq_some_iff.1 hh
      exact hblock r rfl rfl

theorem docMarker_slash_none {t : Text} (h₁ : t.head? ≠ some '/') (h₂ : t.head? ≠ some '*') :
    DocMarker.read ('/' :: t) = none := by
  unfold DocMarker.read
  split <;> simp_all

end Trivia

/-! ## Tokens in front of what echoes -/

namespace Atom

variable {old new : Text}

/-- A documentation block does not depend on what follows it. -/
theorem docMarker_block_stable {marker : DocMarker} {body rest : Text}
    (hline : marker.isLine = false)
    (h : DocMarker.read (marker.opening ++ (body ++ '*' :: '/' :: rest)) =
      some (marker, body ++ '*' :: '/' :: rest)) (rest' : Text) :
    DocMarker.read (marker.opening ++ (body ++ '*' :: '/' :: rest')) =
      some (marker, body ++ '*' :: '/' :: rest') := by
  have hhead : (body ++ '*' :: '/' :: rest').head? = (body ++ '*' :: '/' :: rest).head? := by
    cases body <;> rfl
  cases marker with
  | outerLine => cases hline
  | innerLine => cases hline
  | outerBlock =>
    simp only [DocMarker.opening, List.cons_append, List.nil_append, DocMarker.read,
      hhead] at h ⊢
    split at h
    · cases h
    · rename_i hmark
      rw [if_neg hmark]
  | innerBlock => rfl

theorem readIdent_echo {w : Text} (hw : w ≠ []) (h : readIdent (w ++ old) = (.ident w, old))
    (he : Echoes old new) : readIdent (w ++ new) = (.ident w, new) := by
  have hplain : ∀ {t : Text}, (∀ c rest, t = 'r' :: '#' :: c :: rest → isWordStart c = false) →
      readIdent t = (.ident (spanWord t).1, (spanWord t).2) := by
    intro t ht
    unfold readIdent
    split
    · rename_i c rest
      rw [if_neg (Bool.eq_false_iff.1 (ht c rest rfl))]
    · rfl
  by_cases hraw : ∃ c rest, w ++ old = 'r' :: '#' :: c :: rest ∧ isWordStart c = true
  · -- a raw identifier: its mark belongs to the word
    obtain ⟨c, rest, hc, hstart⟩ := hraw
    rw [hc] at h
    simp only [readIdent, hstart, ↓reduceIte, Prod.mk.injEq, Atom.ident.injEq] at h
    obtain ⟨rfl, rfl⟩ := h
    have hword : (spanWord (c :: rest)).1 = c :: (spanWord rest).1 := by
      simp [spanWord, isWordPart_of_isWordStart hstart]
    have hspan := spanWord_echo (spanWord_self (c :: rest)) he
    rw [hword] at hspan ⊢
    simp only [List.cons_append] at hspan ⊢
    simp only [readIdent, hstart, ↓reduceIte, hspan]
  · have hold : ∀ c rest, w ++ old = 'r' :: '#' :: c :: rest → isWordStart c = false := by
      intro c rest hc
      rw [Bool.eq_false_iff]
      exact fun hstart => hraw ⟨c, rest, hc, hstart⟩
    rw [hplain hold] at h
    simp only [Prod.mk.injEq, Atom.ident.injEq] at h
    have hspan : spanWord (w ++ old) = (w, old) := Prod.ext h.1 h.2
    rw [hplain, spanWord_echo hspan he]
    -- the mark of a raw identifier in the new text would have been there before
    intro c rest hc
    rw [Bool.eq_false_iff]
    intro hstart
    have hall := (spanWord_eq_iff.1 hspan).1
    rcases w with _ | ⟨x, _ | ⟨y, w⟩⟩
    · exact hw rfl
    · simp only [List.cons_append, List.nil_append, List.cons.injEq] at hc
      obtain ⟨rfl, rfl⟩ := hc
      obtain ⟨old', rfl, he'⟩ := he.of_cons (by decide)
      have hseam : isSeam c = false := by
        rw [Bool.eq_false_iff]
        intro hs
        have := isWordPart_seam hs
        rw [isWordPart_of_isWordStart hstart] at this
        cases this
      obtain ⟨rest', rfl, -⟩ := he'.of_cons hseam
      have := hold c rest' rfl
      rw [hstart] at this
      cases this
    · simp only [List.cons_append, List.cons.injEq] at hc
      obtain ⟨rfl, rfl, -⟩ := hc
      exact absurd (hall '#' (by simp)) (by decide)

theorem readWord_echo {c : Char} {more : Text} {a : Atom}
    (h : readWord (c :: (more ++ old)) = .ok (a, old)) (ha : a.text = c :: more)
    (he : Echoes old new) :
    readWord (c :: (more ++ new)) = .ok (a, new) ∧ ∃ text, a = .literal text ∨ a = .ident text := by
  unfold readWord at h ⊢
  split at h
  · cases h
  · rename_i text after hm
    simp only [Except.ok.injEq, Prod.mk.injEq] at h
    obtain ⟨rfl, rfl⟩ := h
    have htext : text = c :: more := ha
    subst htext
    have hnew := Literal.readMarked_echo (t := c :: more) hm he
    rw [List.cons_append] at hnew
    rw [hnew]
    exact ⟨rfl, _, .inl rfl⟩
  · rename_i hm
    rw [Literal.readMarked_none_echo hm (he.append more)]
    simp only [Except.ok.injEq] at h ⊢
    have hident : ∃ w, a = .ident w := by
      have : ∀ t, ∃ w, (readIdent t).1 = .ident w := by
        intro t
        unfold readIdent
        split
        · split <;> exact ⟨_, rfl⟩
        · exact ⟨_, rfl⟩
      obtain ⟨w, hw⟩ := this (c :: (more ++ old))
      rw [h] at hw
      exact ⟨w, hw⟩
    obtain ⟨w, rfl⟩ := hident
    have hw : w = c :: more := ha
    subst hw
    exact ⟨readIdent_echo (List.cons_ne_nil c more) h he, _, .inr rfl⟩

theorem map_literal_eq_iff {e : Except Fault (Text × Text)} {a : Atom} {rest : Text} :
    (e.map fun (text, after) => (Atom.literal text, after)) = .ok (a, rest) ↔
      ∃ text, a = .literal text ∧ e = .ok (text, rest) := by
  cases e with
  | error => simp [Except.map]
  | ok b =>
    obtain ⟨text, after⟩ := b
    simp only [Except.map, Except.ok.injEq, Prod.mk.injEq]
    constructor
    · rintro ⟨rfl, rfl⟩
      exact ⟨text, rfl, rfl, rfl⟩
    · rintro ⟨_, rfl, rfl, rfl⟩
      exact ⟨rfl, rfl⟩

/-- The two branches behind a single quote. -/
theorem readApostrophe_cons {d : Char} {t : Text} :
    readApostrophe (d :: t) =
      if d = '\\' || t.head? = some '\'' then
        (Literal.readQuoted ['\''] '\'' (d :: t)).map fun (text, after) => (.literal text, after)
      else if isWordStart d then
        .ok (.lifetime ('\'' :: (spanWord (d :: t)).1), (spanWord (d :: t)).2)
      else .error (.characterUnterminated (some d)) := rfl

/-- Behind a single quote at least one character is read. -/
theorem readApostrophe_ne_quote {t rest : Text} {a : Atom}
    (h : readApostrophe t = .ok (a, rest)) : a.text ≠ ['\''] := by
  cases t with
  | nil => cases h
  | cons d t =>
    rw [readApostrophe_cons] at h
    split at h
    · obtain ⟨text, rfl, hq⟩ := map_literal_eq_iff.1 h
      obtain ⟨body, suffix, hb, -, rfl⟩ := Literal.readQuoted_eq_ok_iff.1 hq
      have hne := Literal.quotedBody_ne_nil hb
      simp [Atom.text, hne]
    split at h
    · rename_i hd
      simp only [Except.ok.injEq, Prod.mk.injEq] at h
      obtain ⟨rfl, -⟩ := h
      simp [Atom.text, spanWord, isWordPart_of_isWordStart hd]
    · cases h

/-- In front of a quote, one character behind a single quote is read only if it is a quote. -/
theorem readApostrophe_pair {d : Char} {a : Atom} (h : readApostrophe (d :: old) = .ok (a, old))
    (ha : a.text = ['\'', d]) (hold : old.head? = some '\'') : d = '\'' := by
  obtain ⟨rest, rfl⟩ := List.head?_eq_some_iff.1 hold
  rw [readApostrophe_cons, if_pos (by simp)] at h
  obtain ⟨text, rfl, hr⟩ := map_literal_eq_iff.1 h
  obtain ⟨body, suffix, hb, -, htext⟩ := Literal.readQuoted_eq_ok_iff.1 hr
  have hbody : body ++ suffix = [d] := by
    have hd : text = ['\'', d] := ha
    rw [htext] at hd
    simpa using hd
  by_cases hd : d = '\''
  · exact hd
  by_cases hescape : d = '\\'
  · -- the quote would belong to the escape
    subst hescape
    rw [Literal.quotedBody] at hb
    simp only [Option.map_eq_some_iff, Prod.mk.injEq, Prod.exists] at hb
    obtain ⟨_, _, -, rfl, -⟩ := hb
    simp at hbody
  · rw [Literal.quotedBody_cons hescape, if_neg hd, Literal.quotedBody_cons (by decide),
      if_pos rfl] at hb
    simp only [Option.map_some, Option.some.injEq, Prod.mk.injEq] at hb
    rw [← hb.1] at hbody
    simp at hbody

theorem readApostrophe_echo {more : Text} {a : Atom}
    (h : readApostrophe (more ++ old) = .ok (a, old)) (ha : a.text = '\'' :: more)
    (he : Echoes old new)
    (hquotes : old.head? = some '\'' → new.head? = some '\'' ∨ a.text ≠ ['\'', '\'']) :
    readApostrophe (more ++ new) = .ok (a, new) ∧
      ∃ text, a = .literal text ∨ a = .lifetime text := by
  cases more with
  | nil => exact absurd ha (readApostrophe_ne_quote h)
  | cons d more =>
    -- whether a quote follows the first character is the same in both texts
    have hquote : (more ++ new).head? = some '\'' ↔ (more ++ old).head? = some '\'' := by
      cases more with
      | nil =>
        refine ⟨he.head_eq (by decide), fun hold => (hquotes hold).resolve_right ?_⟩
        rw [readApostrophe_pair h ha hold] at ha
        exact fun hne => hne ha
      | cons e more => exact Iff.rfl
    rw [List.cons_append, readApostrophe_cons] at h
    rw [List.cons_append, readApostrophe_cons]
    simp only [hquote]
    split at h
    · rename_i hq
      obtain ⟨text, rfl, hr⟩ := map_literal_eq_iff.1 h
      have htext : text = '\'' :: d :: more := ha
      subst htext
      have hnew := Literal.readQuoted_echo (t := d :: more) hr he
      rw [if_pos hq]
      exact ⟨map_literal_eq_iff.2 ⟨_, rfl, hnew⟩, _, .inl rfl⟩
    rename_i hq
    split at h
    · rename_i hd
      simp only [Except.ok.injEq, Prod.mk.injEq] at h
      obtain ⟨rfl, hrest⟩ := h
      simp only [Atom.text, List.cons.injEq, true_and] at ha
      have hspan := spanWord_echo (w := d :: more) (Prod.ext ha hrest) he
      rw [List.cons_append] at hspan
      rw [if_neg hq, if_pos hd, hspan, ha]
      exact ⟨rfl, _, .inr rfl⟩
    · cases h

/-! ## Where tokens end -/

theorem readWord_solid {t rest : Text} {a : Atom} (h : readWord t = .ok (a, rest)) :
    ∃ text, (a = .ident text ∨ a = .lifetime text ∨ a = .literal text) ∧
      text.endsBlank = false := by
  unfold readWord at h
  split at h
  · cases h
  · rename_i hm
    simp only [Except.ok.injEq, Prod.mk.injEq] at h
    obtain ⟨rfl, -⟩ := h
    exact ⟨_, .inr (.inr rfl), Literal.readMarked_solid hm⟩
  · simp only [Except.ok.injEq] at h
    unfold readIdent at h
    split at h
    · split at h
      · simp only [Prod.mk.injEq] at h
        obtain ⟨rfl, -⟩ := h
        refine ⟨_, .inl rfl, Text.endsBlank_of_forall ?_⟩
        intro x hx
        simp only [List.mem_cons] at hx
        rcases hx with rfl | rfl | hx
        · decide
        · decide
        · exact isBlank_of_isWordPart (spanWord_forall hx)
      · simp only [Prod.mk.injEq] at h
        obtain ⟨rfl, -⟩ := h
        exact ⟨_, .inl rfl, Text.endsBlank_of_forall fun x hx =>
          isBlank_of_isWordPart (spanWord_forall hx)⟩
    · simp only [Prod.mk.injEq] at h
      obtain ⟨rfl, -⟩ := h
      exact ⟨_, .inl rfl, Text.endsBlank_of_forall fun x hx =>
        isBlank_of_isWordPart (spanWord_forall hx)⟩

theorem readApostrophe_solid {t rest : Text} {a : Atom} (h : readApostrophe t = .ok (a, rest)) :
    ∃ text, (a = .ident text ∨ a = .lifetime text ∨ a = .literal text) ∧
      text.endsBlank = false := by
  cases t with
  | nil => cases h
  | cons d t =>
    rw [readApostrophe_cons] at h
    split at h
    · obtain ⟨text, rfl, hr⟩ := map_literal_eq_iff.1 h
      exact ⟨text, .inr (.inr rfl), Literal.readQuoted_solid (by decide) hr⟩
    split at h
    · simp only [Except.ok.injEq, Prod.mk.injEq] at h
      obtain ⟨rfl, -⟩ := h
      refine ⟨_, .inr (.inl rfl), Text.endsBlank_of_forall ?_⟩
      intro x hx
      rcases List.mem_cons.1 hx with rfl | hx
      · decide
      · exact isBlank_of_isWordPart (spanWord_forall hx)
    · cases h

/-! ## One token -/

/-- A block of documentation is read to its end and no further. -/
theorem readDoc_echo {marker : DocMarker} {c : Char} {more after : Text} {a : Atom}
    (hm : DocMarker.read (c :: (more ++ old)) = some (marker, after))
    (h : readDoc marker after = .ok (a, old)) (ha : a.text = c :: more)
    (hline : a.isDocLine = false) (new : Text) :
    ∃ after', DocMarker.read (c :: (more ++ new)) = some (marker, after') ∧
      readDoc marker after' = .ok (a, new) ∧ a.rejoin new = a := by
  unfold readDoc at h
  split at h
  · rename_i hl
    simp only [Except.ok.injEq, Prod.mk.injEq] at h
    obtain ⟨rfl, -⟩ := h
    rw [Atom.isDocLine, hl] at hline
    cases hline
  rename_i hl
  rw [Bool.not_eq_true] at hl
  split at h
  · cases h
  rename_i body _ hb
  simp only [Except.ok.injEq, Prod.mk.injEq] at h
  obtain ⟨rfl, rfl⟩ := h
  have hclosing : marker.closing = ['*', '/'] := by
    cases marker <;> first | rfl | cases hl
  have htext : ∀ t, c :: (more ++ t) = marker.opening ++ (body ++ '*' :: '/' :: t) := by
    intro t
    rw [← List.cons_append, ← ha]
    simp [Atom.text, hclosing]
  have hafter := blockBody_append hb
  subst hafter
  rw [htext] at hm
  refine ⟨body ++ '*' :: '/' :: new, ?_, ?_, rfl⟩
  · rw [htext]
    exact docMarker_block_stable hl hm new
  · simp [readDoc, hl, blockBody_stable hb new]

/-- A token is the same in front of both texts, up to the record of punctuation. -/
theorem read_echo {c : Char} {more : Text} {a : Atom}
    (h : Atom.read c (more ++ old) = .ok (a, old)) (ha : a.text = c :: more)
    (hline : a.isDocLine = false) (hstops : Trivia.Stops (c :: (more ++ old)))
    (he : Echoes old new)
    (hquotes : old.head? = some '\'' → new.head? = some '\'' ∨ a.text ≠ ['\'', '\'']) :
    Atom.read c (more ++ new) = .ok (a.rejoin new, new) ∧ Trivia.Stops (c :: (more ++ new)) := by
  have hblank := hstops.head_not_blank
  unfold Atom.read at h
  split at h
  · rename_i hm
    obtain ⟨after, hm', hr, hj⟩ := readDoc_echo hm h ha hline new
    refine ⟨?_, Trivia.stops_of_docMarker (by rw [hm']; rfl) hblank⟩
    unfold Atom.read
    rw [hm', hj]
    exact hr
  rename_i hm
  by_cases hslash : c = '/'
  · subst hslash
    simp only [show isWordStart '/' = false by decide, show Text.isDigit '/' = false by decide,
      show isPunctuation '/' = true by decide, Bool.false_eq_true, ↓reduceIte,
      Char.reduceEq, Except.ok.injEq, Prod.mk.injEq] at h
    obtain ⟨rfl, hmore⟩ := h
    have : more = [] := by simpa using hmore
    subst this
    obtain ⟨h₁, h₂⟩ := (Trivia.stops_slash_iff hm).1 hstops
    have h₁' : new.head? ≠ some '/' := fun hn => h₁ (he.head_eq (by decide) hn)
    have h₂' : new.head? ≠ some '*' := fun hn => h₂ (he.head_eq (by decide) hn)
    have hm' := Trivia.docMarker_slash_none h₁' h₂'
    refine ⟨?_, (Trivia.stops_slash_iff hm').2 ⟨h₁', h₂'⟩⟩
    unfold Atom.read
    simp [hm', show isWordStart '/' = false by decide, show Text.isDigit '/' = false by decide,
      show isPunctuation '/' = true by decide, Atom.rejoin]
  refine ⟨?_, Trivia.stops_of_ne hslash hblank _⟩
  unfold Atom.read
  rw [Trivia.docMarker_none_of_ne hslash]
  simp only
  split at h
  · rename_i hc
    obtain ⟨hr, text, rfl | rfl⟩ := readWord_echo h ha he
    · rw [if_pos hc]; exact hr
    · rw [if_pos hc]; exact hr
  rename_i hc
  split at h
  · rename_i hd
    simp only [Except.ok.injEq, Prod.mk.injEq] at h
    obtain ⟨rfl, hrest⟩ := h
    have hn := Literal.readNumber_echo (List.cons_ne_nil c more) (Prod.ext ha hrest) he
    rw [List.cons_append] at hn
    have htext : (Literal.readNumber (c :: (more ++ old))).1 = c :: more := ha
    rw [if_neg hc, if_pos hd, hn, htext]
    rfl
  rename_i hd
  split at h
  · rename_i hq
    subst hq
    obtain ⟨hr, text, rfl | rfl⟩ := readApostrophe_echo h ha he hquotes
    · rw [if_neg hc, if_neg hd, if_pos rfl]; exact hr
    · rw [if_neg hc, if_neg hd, if_pos rfl]; exact hr
  rename_i hq
  split at h
  · rename_i hs
    subst hs
    obtain ⟨text, rfl, hr⟩ := map_literal_eq_iff.1 h
    have htext : text = '"' :: more := ha
    subst htext
    rw [if_neg hc, if_neg hd, if_neg hq, if_pos rfl]
    exact map_literal_eq_iff.2 ⟨_, rfl, Literal.readQuoted_echo hr he⟩
  rename_i hs
  split at h
  · rename_i hp
    simp only [Except.ok.injEq, Prod.mk.injEq] at h
    obtain ⟨rfl, hmore⟩ := h
    have : more = [] := by simpa using hmore
    subst this
    rw [if_neg hc, if_neg hd, if_neg hq, if_neg hs, if_pos hp]
    rfl
  · cases h

/-- The three kinds of token: documentation, words and literals, which end with no blank,
and punctuation, which records whether punctuation follows. -/
theorem read_kinds {c : Char} {t rest : Text} {a : Atom} (h : Atom.read c t = .ok (a, rest)) :
    (∃ marker after, DocMarker.read (c :: t) = some (marker, after) ∧
        readDoc marker after = .ok (a, rest)) ∨
      (∃ text, (a = .ident text ∨ a = .lifetime text ∨ a = .literal text) ∧
        text.endsBlank = false) ∨
      a = .punct c (rest.head?.any isPunctuation) ∧ isPunctuation c = true := by
  unfold Atom.read at h
  split at h
  · rename_i marker after hm
    exact .inl ⟨marker, after, hm, h⟩
  refine .inr ?_
  split at h
  · exact .inl (readWord_solid h)
  split at h
  · simp only [Except.ok.injEq, Prod.mk.injEq] at h
    obtain ⟨rfl, -⟩ := h
    exact .inl ⟨_, .inr (.inr rfl), Text.endsBlank_of_forall (Literal.spanNumber_solid _ _ _)⟩
  split at h
  · exact .inl (readApostrophe_solid h)
  split at h
  · obtain ⟨text, rfl, hr⟩ := map_literal_eq_iff.1 h
    exact .inl ⟨text, .inr (.inr rfl), Literal.readQuoted_solid (by decide) hr⟩
  split at h
  · rename_i hp
    simp only [Except.ok.injEq, Prod.mk.injEq] at h
    obtain ⟨rfl, rfl⟩ := h
    exact .inr ⟨rfl, hp⟩
  · cases h

/-- A line of documentation is a marker and the rest of its line. -/
theorem docLine_of_read {c : Char} {t rest value : Text} {marker : DocMarker}
    (hline : marker.isLine = true) (h : Atom.read c t = .ok (.doc marker value, rest)) :
    DocMarker.read (c :: t) = some (marker, value ++ rest) ∧
      spanLine (value ++ rest) = (value, rest) := by
  rcases read_kinds h with ⟨marker', after, hm, hr⟩ | ⟨text, ha, -⟩ | ⟨ha, -⟩
  · unfold readDoc at hr
    split at hr
    · simp only [Except.ok.injEq, Prod.mk.injEq, Atom.doc.injEq] at hr
      obtain ⟨⟨rfl, rfl⟩, rfl⟩ := hr
      rw [spanLine_append]
      exact ⟨hm, rfl⟩
    · rename_i hl
      split at hr
      · cases hr
      · simp only [Except.ok.injEq, Prod.mk.injEq, Atom.doc.injEq] at hr
        obtain ⟨⟨rfl, rfl⟩, rfl⟩ := hr
        exact absurd hline hl
  · simp at ha
  · cases ha

/-- Punctuation records whether punctuation follows. -/
theorem joint_of_read {c char : Char} {joint : Bool} {t rest : Text}
    (h : Atom.read c t = .ok (.punct char joint, rest)) :
    rest.head?.any isPunctuation = joint := by
  rcases read_kinds h with ⟨marker, after, -, hr⟩ | ⟨text, ha, -⟩ | ⟨ha, -⟩
  · unfold readDoc at hr
    split at hr
    · cases hr
    · split at hr <;> cases hr
  · simp at ha
  · cases ha
    rfl

end Atom

/-! ## One glyph -/

namespace Glyph

variable {old new : Text} {g : Glyph}

theorem Fits.ne_nil (h : g.Fits old) : g.text ≠ [] := by
  obtain ⟨c, more, htext, -⟩ := h
  rw [htext]
  exact List.cons_ne_nil c more

theorem Fits.stops (h : g.Fits old) : Trivia.Stops (g.text ++ old) := by
  obtain ⟨c, more, htext, hstops, -⟩ := h
  rw [htext]
  exact hstops

/-- One glyph fits at a place. -/
theorem Fits.unique {g' : Glyph} (h : g.Fits old) (h' : g'.Fits new)
    (heq : g.text ++ old = g'.text ++ new) : g = g' ∧ old = new := by
  obtain ⟨c, more, htext, -, hread⟩ := h
  obtain ⟨c', more', htext', -, hread'⟩ := h'
  rw [htext, htext', List.cons_append, List.cons_append, List.cons.injEq] at heq
  obtain ⟨rfl, hmore⟩ := heq
  rw [hmore, hread'] at hread
  obtain ⟨rfl, rfl⟩ := Prod.mk.inj (Except.ok.inj hread)
  exact ⟨rfl, rfl⟩

/-- What is read where a token starts fits there. -/
theorem fits_of_read {c : Char} {t : Text} (hstops : Trivia.Stops (c :: t))
    (h : Glyph.read c t = .ok (g, old)) : g.Fits old := by
  have happend := Glyph.read_append h
  obtain ⟨d, more, htext⟩ := List.exists_cons_of_ne_nil (Glyph.read_ne_nil h)
  rw [htext] at happend
  simp only [List.cons_append, List.cons.injEq] at happend
  obtain ⟨rfl, rfl⟩ := happend
  exact ⟨d, more, htext, hstops, h⟩

/-- Brackets fit everywhere. -/
theorem fits_opening (d : Delimiter) (rest : Text) : (opening d).Fits rest :=
  ⟨d.opening, [], rfl,
    Trivia.stops_of_ne (by cases d <;> decide) (by cases d <;> decide) _, by cases d <;> rfl⟩

theorem fits_closing (d : Delimiter) (rest : Text) : (closing d).Fits rest :=
  ⟨d.closing, [], rfl,
    Trivia.stops_of_ne (by cases d <;> decide) (by cases d <;> decide) _, by cases d <;> rfl⟩

/-- A token that is no bracket fits where it is read. -/
theorem fits_atom_iff {a : Atom} :
    (atom a).Fits old ↔
      ∃ c more, a.text = c :: more ∧ Trivia.Stops (c :: (more ++ old)) ∧
        Delimiter.ofOpening? c = none ∧ Delimiter.ofClosing? c = none ∧
        Atom.read c (more ++ old) = .ok (a, old) := by
  constructor
  · rintro ⟨c, more, htext, hstops, hread⟩
    refine ⟨c, more, htext, hstops, ?_⟩
    unfold Glyph.read at hread
    split at hread
    · cases hread
    rename_i ho
    split at hread
    · cases hread
    rename_i hc
    split at hread
    · cases hread
    rename_i hr
    simp only [Except.ok.injEq, Prod.mk.injEq, Glyph.atom.injEq] at hread
    obtain ⟨rfl, rfl⟩ := hread
    exact ⟨ho, hc, hr⟩
  · rintro ⟨c, more, htext, hstops, ho, hc, hr⟩
    refine ⟨c, more, htext, hstops, ?_⟩
    unfold Glyph.read
    rw [ho, hc]
    simp only [hr]

/-- A glyph fits in front of what echoes. -/
theorem Fits.echo (h : g.Fits old) (hline : g.isDocLine = false) (he : Echoes old new)
    (hquotes : old.head? = some '\'' → new.head? = some '\'' ∨ g.isQuotes = false) :
    (g.rejoin new).Fits new := by
  cases g with
  | opening d => exact fits_opening d new
  | closing d => exact fits_closing d new
  | atom a =>
    obtain ⟨c, more, htext, hstops, ho, hc, hr⟩ := fits_atom_iff.1 h
    obtain ⟨hr', hstops'⟩ := Atom.read_echo hr htext hline hstops he fun hold =>
      (hquotes hold).imp_right of_decide_eq_false
    exact fits_atom_iff.2 ⟨c, more, by rw [Atom.rejoin_text, htext], hstops', ho, hc, hr'⟩

/-- The record of punctuation is true of the text behind. -/
theorem Fits.rejoin_eq (h : g.Fits old)
    (hhead : new.head?.any isPunctuation = old.head?.any isPunctuation) : g.rejoin new = g := by
  cases g with
  | opening d => rfl
  | closing d => rfl
  | atom a =>
    obtain ⟨c, more, htext, -, -, -, hr⟩ := fits_atom_iff.1 h
    cases a with
    | punct char joint =>
      obtain ⟨rfl, rfl⟩ : char = c ∧ [] = more := by simpa [Atom.text] using htext
      rw [Glyph.rejoin, Atom.rejoin, hhead, Atom.joint_of_read hr]
    | ident => rfl
    | lifetime => rfl
    | literal => rfl
    | doc => rfl

end Glyph

/-! ## Kin -/

/-- The text `new` may stand where `old` stood, behind any glyph. -/
structure Kin (old new : Text) : Prop where
  echoes : Echoes old new
  head : new.head? = old.head?
  lineEnds : lineEnds old = true → lineEnds new = true

namespace Kin

variable {old new : Text}

theorem refl (t : Text) : Kin t t := ⟨.refl t, rfl, id⟩

/-- Behind the hash of a replaced annotation anything may have stood. -/
theorem hash {c : Char} (hc : isSeam c = true) : Kin ('#' :: old) ('#' :: c :: new) :=
  ⟨.cons '#' (.seam hc), rfl, fun h => by simp [CondAttrs.lineEnds] at h⟩

theorem append (t : Text) (h : Kin old new) : Kin (t ++ old) (t ++ new) := by
  refine ⟨h.echoes.append t, ?_, ?_⟩
  · rw [List.head?_append, List.head?_append, h.head]
  · intro hl
    rcases t with _ | ⟨c, _ | ⟨d, t⟩⟩
    · exact h.lineEnds hl
    · simpa only [CondAttrs.lineEnds, List.cons_append, List.nil_append, h.head] using hl
    · exact hl

/-- What stands behind a token is kin as soon as it echoes. -/
theorem of_echoes {leading t : Text} (ht : t ≠ []) (hstops : Trivia.Stops (t ++ old))
    (he : Echoes old new) : Kin (leading ++ (t ++ old)) (leading ++ (t ++ new)) := by
  refine ⟨(he.append t).append leading, ?_, fun hl => ?_⟩
  · obtain ⟨c, more, rfl⟩ := List.exists_cons_of_ne_nil ht
    simp [List.head?_append]
  · exact (Trivia.lineEnds_append_of_stops hstops _ hl).2.2

end Kin

namespace Glyph

variable {old new : Text} {g : Glyph}

/-- A line of documentation fits in front of the same end of its line. -/
theorem Fits.docLine (h : g.Fits old) (hline : g.isDocLine = true)
    (hhead : new.head? = old.head?) (hend : lineEnds old = true → lineEnds new = true) :
    g.Fits new := by
  cases g with
  | opening d => cases hline
  | closing d => cases hline
  | atom a =>
    cases a with
    | ident => cases hline
    | lifetime => cases hline
    | literal => cases hline
    | punct => cases hline
    | doc marker value =>
      obtain ⟨c, more, htext, hstops, ho, hc, hr⟩ := fits_atom_iff.1 h
      obtain ⟨hm, hspan⟩ := Atom.docLine_of_read hline hr
      have hclosing : marker.closing = [] := by
        cases marker <;> first | rfl | cases hline
      have htext' : ∀ t, c :: (more ++ t) = marker.opening ++ (value ++ t) := by
        intro t
        rw [← List.cons_append, ← htext]
        simp [Atom.text, hclosing]
      have hvalue : (value ++ new).head? = (value ++ old).head? := by
        rw [List.head?_append, List.head?_append, hhead]
      have hm' : DocMarker.read (c :: (more ++ new)) = some (marker, value ++ new) := by
        rw [htext'] at hm ⊢
        cases marker with
        | outerLine =>
          simp only [DocMarker.opening, List.cons_append, List.nil_append, DocMarker.read,
            hvalue] at hm ⊢
          split at hm
          · cases hm
          · rename_i hslash
            rw [if_neg hslash]
        | innerLine => rfl
        | outerBlock => cases hline
        | innerBlock => cases hline
      have hold : lineEnds old = true := by
        have := lineEnds_spanLine (value ++ old)
        rwa [hspan] at this
      refine fits_atom_iff.2 ⟨c, more, htext, ?_, ho, hc, ?_⟩
      · exact Trivia.stops_of_docMarker (by rw [hm']; rfl) hstops.head_not_blank
      · unfold Atom.read
        rw [hm']
        have hl : marker.isLine = true := hline
        simp only [Atom.readDoc, hl, ↓reduceIte, spanLine_stable hspan hhead (hend hold)]

/-- In front of kin a glyph fits unchanged. -/
theorem Fits.kin (h : g.Fits old) (hk : Kin old new) : g.Fits new := by
  by_cases hline : g.isDocLine = true
  · exact h.docLine hline hk.head hk.lineEnds
  · have hfits := h.echo (Bool.eq_false_iff.2 hline) hk.echoes fun hold =>
      .inl (hk.head.trans hold)
    rwa [h.rejoin_eq (by rw [hk.head])] at hfits

/-- Only a line of documentation ends with a blank. -/
theorem Fits.endsBlank (h : g.Fits old) (hline : g.isDocLine = false) :
    g.text.endsBlank = false := by
  cases g with
  | opening d => cases d <;> decide
  | closing d => cases d <;> decide
  | atom a =>
    obtain ⟨c, more, -, -, -, -, hr⟩ := fits_atom_iff.1 h
    rcases Atom.read_kinds hr with ⟨marker, after, -, hd⟩ | ⟨text, ha, ht⟩ | ⟨rfl, hp⟩
    · unfold Atom.readDoc at hd
      split at hd
      · rename_i hl
        simp only [Except.ok.injEq, Prod.mk.injEq] at hd
        obtain ⟨rfl, -⟩ := hd
        rw [Glyph.isDocLine, Atom.isDocLine, hl] at hline
        cases hline
      rename_i hl
      split at hd
      · cases hd
      simp only [Except.ok.injEq, Prod.mk.injEq] at hd
      obtain ⟨rfl, -⟩ := hd
      have hclosing : marker.closing = ['*', '/'] := by
        cases marker <;> first | rfl | exact absurd rfl hl
      rw [Glyph.text, Atom.text, hclosing, Text.endsBlank_append_of_ne_nil (by simp)]
      decide
    · rcases ha with rfl | rfl | rfl <;> exact ht
    · have hall : ∀ c ∈ punctuation, Text.isBlank c = false := forall_of_all (by decide)
      exact hall c (List.contains_iff_mem.1 hp)

/-! ## Tokens that are written -/

theorem fits_punct {c : Char} {rest : Text} (hc : isPunctuation c = true) (hslash : c ≠ '/') :
    (atom (.punct c (rest.head?.any isPunctuation))).Fits rest := by
  have hclass : ∀ c ∈ punctuation, Text.isBlank c = false ∧ Delimiter.ofOpening? c = none ∧
      Delimiter.ofClosing? c = none ∧ isWordStart c = false ∧ Text.isDigit c = false ∧
      c ≠ '\'' ∧ c ≠ '"' := forall_of_all (by decide)
  obtain ⟨hb, ho, hcl, hw, hd, hq, hs⟩ := hclass c (List.contains_iff_mem.1 hc)
  refine fits_atom_iff.2 ⟨c, [], rfl, Trivia.stops_of_ne hslash hb _, ho, hcl, ?_⟩
  unfold Atom.read
  rw [Trivia.docMarker_none_of_ne hslash]
  simp [hw, hd, hq, hs, hc]

/-- Whether a word ends in front of the character and is no mark of a literal there. -/
def endsWord (c : Char) : Bool :=
  !isWordPart c && c ≠ '#' && c ≠ '"' && c ≠ '\''

/-- A character of a word at the start of a text belongs to the word. -/
theorem cons_of_append {w rest more : Text} {c : Char} (hrest : rest.head?.all endsWord = true)
    (hc : isWordPart c = true) (h : w ++ rest = c :: more) :
    ∃ w', w = c :: w' ∧ w' ++ rest = more := by
  cases w with
  | nil =>
    rw [List.nil_append] at h
    rw [h] at hrest
    simp [endsWord, hc] at hrest
  | cons d w =>
    obtain ⟨rfl, hmore⟩ := List.cons.inj h
    exact ⟨w, rfl, hmore⟩

/-- Neither a word nor what ends it has a hash or a quote in front. -/
theorem head_of_word {w rest more : Text} {c : Char} (hw : ∀ x ∈ w, isWordPart x = true)
    (hrest : rest.head?.all endsWord = true) (h : w ++ rest = c :: more) :
    c ≠ '#' ∧ c ≠ '"' ∧ c ≠ '\'' := by
  cases w with
  | nil =>
    rw [List.nil_append] at h
    rw [h] at hrest
    simp only [endsWord, List.head?_cons, Option.all_some, Bool.and_eq_true,
      decide_eq_true_eq] at hrest
    exact ⟨hrest.1.1.2, hrest.1.2, hrest.2⟩
  | cons d w =>
    obtain ⟨rfl, -⟩ := List.cons.inj h
    have hd := hw d (by simp)
    refine ⟨?_, ?_, ?_⟩ <;> rintro rfl <;> exact absurd hd (by decide)

/-- A word is no mark of a literal where it ends. -/
theorem readMarked_word {w rest : Text} (hw : ∀ c ∈ w, isWordPart c = true)
    (hrest : rest.head?.all endsWord = true) : Literal.readMarked (w ++ rest) = .ok none := by
  have hraw : ∀ {w mark : Text}, (∀ c ∈ w, isWordPart c = true) →
      Literal.readRaw mark (w ++ rest) = .ok none := by
    intro w mark hw
    rw [Literal.readRaw_eq_none_iff]
    cases ht : w ++ rest with
    | nil => rfl
    | cons c t =>
      obtain ⟨hhash, hquote, -⟩ := head_of_word hw hrest ht
      rw [← Option.not_isSome_iff_eq_none, Literal.rawOpening_cons t hhash]
      simp [hquote]
  unfold Literal.readMarked
  split
  · rename_i heq
    obtain ⟨w₁, rfl, hmore⟩ := cons_of_append hrest (by decide) heq
    obtain ⟨w₂, rfl, rfl⟩ := cons_of_append hrest (by decide) hmore
    exact hraw fun c hc => hw c (by simp [hc])
  · rename_i heq
    obtain ⟨w₁, rfl, hmore⟩ := cons_of_append hrest (by decide) heq
    obtain ⟨w₂, rfl, rfl⟩ := cons_of_append hrest (by decide) hmore
    exact hraw fun c hc => hw c (by simp [hc])
  · rename_i heq
    obtain ⟨w₁, rfl, rfl⟩ := cons_of_append hrest (by decide) heq
    exact hraw fun c hc => hw c (by simp [hc])
  · rename_i heq
    obtain ⟨w₁, rfl, hmore⟩ := cons_of_append hrest (by decide) heq
    exact absurd rfl (head_of_word (fun c hc => hw c (by simp [hc])) hrest hmore).2.1
  · rename_i heq
    obtain ⟨w₁, rfl, hmore⟩ := cons_of_append hrest (by decide) heq
    exact absurd rfl (head_of_word (fun c hc => hw c (by simp [hc])) hrest hmore).2.1
  · rename_i heq
    obtain ⟨w₁, rfl, hmore⟩ := cons_of_append hrest (by decide) heq
    exact absurd rfl (head_of_word (fun c hc => hw c (by simp [hc])) hrest hmore).2.2
  · rfl

/-- A word is an identifier where it ends. -/
theorem fits_word {c : Char} {w rest : Text} (hc : isWordStart c = true)
    (hw : ∀ x ∈ w, isWordPart x = true) (hrest : rest.head?.all endsWord = true) :
    (atom (.ident (c :: w))).Fits rest := by
  have hall : ∀ x ∈ c :: w, isWordPart x = true :=
    List.forall_mem_cons.2 ⟨isWordPart_of_isWordStart hc, hw⟩
  have hend : rest.head?.any isWordPart = false := by
    cases rest with
    | nil => rfl
    | cons d rest =>
      simp only [endsWord, List.head?_cons, Option.all_some, Bool.and_eq_true,
        Bool.not_eq_true'] at hrest
      exact hrest.1.1.1
  have hspan : spanWord (c :: (w ++ rest)) = (c :: w, rest) := spanWord_eq_iff.2 ⟨hall, hend⟩
  have hslash : c ≠ '/' := by rintro rfl; exact absurd hc (by decide)
  have hopening : Delimiter.ofOpening? c = none := by
    cases h : Delimiter.ofOpening? c with
    | none => rfl
    | some d =>
      rw [Delimiter.ofOpening?_eq_some_iff.1 h] at hc
      cases d <;> exact absurd hc (by decide)
  have hclosing : Delimiter.ofClosing? c = none := by
    cases h : Delimiter.ofClosing? c with
    | none => rfl
    | some d =>
      rw [Delimiter.ofClosing?_eq_some_iff.1 h] at hc
      cases d <;> exact absurd hc (by decide)
  have hmarked : Literal.readMarked (c :: (w ++ rest)) = .ok none := readMarked_word hall hrest
  refine fits_atom_iff.2 ⟨c, w, rfl, ?_, hopening, hclosing, ?_⟩
  · exact Trivia.stops_of_ne hslash (isBlank_of_isWordPart (isWordPart_of_isWordStart hc)) _
  · unfold Atom.read
    rw [Trivia.docMarker_none_of_ne hslash]
    simp only [hc, ↓reduceIte, Atom.readWord, hmarked]
    unfold Atom.readIdent
    split
    · rename_i heq
      exact absurd rfl (head_of_word hw hrest (List.cons.inj heq).2).1
    · rw [hspan]

/-- An identifier starts as a word does. -/
theorem Fits.exists_isWordStart {name : Text} (h : (atom (.ident name)).Fits old) :
    ∃ c more, name = c :: more ∧ isWordStart c = true := by
  obtain ⟨c, more, htext, -, -, -, hread⟩ := fits_atom_iff.1 h
  refine ⟨c, more, htext, ?_⟩
  unfold Atom.read at hread
  split at hread
  · unfold Atom.readDoc at hread
    split at hread
    · cases hread
    · split at hread <;> cases hread
  split at hread
  · assumption
  split at hread
  · cases hread
  split at hread
  · rename_i hquote
    obtain ⟨-, _, hkind | hkind⟩ :=
      Atom.readApostrophe_echo hread (hquote ▸ htext) (.refl old) .inl <;>
      cases hkind
  split at hread
  · obtain ⟨_, hliteral, -⟩ := Atom.map_literal_eq_iff.1 hread
    cases hliteral
  split at hread <;> cases hread

theorem quotedBody_encodeBody (t rest : Text) :
    Literal.quotedBody '"' (Text.Quoted.encodeBody t ++ '"' :: rest) =
      some (Text.Quoted.encodeBody t ++ ['"'], rest) := by
  induction t with
  | nil => simp [Text.Quoted.encodeBody, Literal.quotedBody]
  | cons c t ih =>
    rw [show Text.Quoted.encodeBody (c :: t) =
      Text.Quoted.encodeChar c ++ Text.Quoted.encodeBody t from rfl]
    unfold Text.Quoted.encodeChar
    split
    · simp [Literal.quotedBody, ih]
    · simp [Literal.quotedBody, ih]
    · simp [Literal.quotedBody, ih]
    · simp [Literal.quotedBody, ih]
    · simp [Literal.quotedBody, ih]
    · rename_i hback hquote _ _ _
      rw [List.append_assoc, List.singleton_append, Literal.quotedBody_cons hback, if_neg hquote,
        ih]
      rfl

/-- A quoted text is a literal at the end of a text. -/
theorem fits_encode_nil (t : Text) : (atom (.literal (Text.Quoted.encode t))).Fits [] := by
  refine fits_atom_iff.2 ⟨'"', Text.Quoted.encodeBody t ++ ['"'], rfl, ?_, rfl, rfl, ?_⟩
  · exact Trivia.stops_of_ne (by decide) (by decide) _
  · unfold Atom.read
    rw [Trivia.docMarker_none_of_ne (by decide)]
    simp [show isWordStart '"' = false by decide, show Text.isDigit '"' = false by decide,
      Literal.readQuoted, quotedBody_encodeBody, Literal.withSuffix, spanWord, Except.map,
      Text.Quoted.encode]

/-- So it is in front of a seam. -/
theorem fits_encode {c : Char} {rest : Text} (t : Text) (hc : isSeam c = true) :
    (atom (.literal (Text.Quoted.encode t))).Fits (c :: rest) :=
  (fits_encode_nil t).echo rfl (.seam hc) (by simp)

end Glyph

end CondAttrs
