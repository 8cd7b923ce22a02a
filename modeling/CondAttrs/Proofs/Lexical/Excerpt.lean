import CondAttrs.Proofs.Lexical.Tree

/-!
# Tokens in new surroundings

A directive is lowered by taking parts of its tokens, without the blanks around them, and
putting commas and brackets between them. An *excerpt* is such a part as a token list: the
blanks in front of its first token are gone, and its last token has met a new neighbour,
which matters only for what a punctuation token records of the character behind it.

Every part that is *quotable* can be taken out like this. Quotable is what runs in some
place of a source text and does not end with a line of documentation, which would swallow
what is put behind it.

## Main definitions

* `Token.endsDocLine`: the last token is a line of documentation.
* `Token.endsQuotes`: the last token is two single quotes.
* `Token.excerpt`: tokens as they are in front of a given text.
* `Token.Quotable`.

## Main statements

* `Token.Quotable.runs_excerpt`: an excerpt runs in front of every seam.
* `Token.Quotable.render_excerpt`: its text is the stripped text of the part.
* `Token.quotable_of_runs`: what runs in any place is quotable unless it ends with two quotes.
-/

namespace CondAttrs

/-! ## Trivia -/

namespace Trivia

/-- Trivia starts with a blank or with a slash. -/
theorem Closed.head {c : Char} {trivia : Text} (h : Closed (c :: trivia)) :
    Text.isBlank c = true ∨ c = '/' := by
  by_cases hslash : c = '/'
  · exact .inr hslash
  · left
    rw [← Bool.not_eq_false]
    intro hblank
    have hstops : Stops [')'] := stops_of_ne (by decide) (by decide) []
    have hread := h _ hstops .start
    rw [List.cons_append, read_of_stops (stops_of_ne hslash hblank _)] at hread
    cases hread

theorem Closed.head_ne_quote {trivia : Text} (h : Closed trivia) :
    trivia.head? ≠ some '\'' := by
  cases trivia with
  | nil => simp
  | cons c trivia =>
    rintro hc
    cases hc
    rcases h.head with hblank | hslash
    · revert hblank
      decide
    · cases hslash

theorem closed_space : Closed [' '] :=
  closed_nil.cons_blank (by decide)

end Trivia

/-- What starts with a sign that is no quote does not start with a quote. -/
theorem Runs.head_ne_quote {s : Sign} {signs : List Sign} {rest : Text}
    (h : Runs (s :: signs) rest) (hs : s.glyph.text.head? ≠ some '\'') :
    (Sign.textAll (s :: signs) ++ rest).head? ≠ some '\'' := by
  obtain ⟨hl, hg, -⟩ := h
  obtain ⟨c, more, htext⟩ := List.exists_cons_of_ne_nil hg.ne_nil
  rw [Sign.textAll, Sign.text, htext, List.append_assoc, List.append_assoc]
  rw [htext] at hs
  cases hleading : s.leading with
  | nil => simpa using hs
  | cons d trivia =>
    rw [hleading] at hl
    simpa using hl.head_ne_quote

theorem Sign.rejoinLast_append (rest : Text) (first : List Sign) {second : List Sign}
    (h : second ≠ []) : rejoinLast rest (first ++ second) = first ++ rejoinLast rest second := by
  induction first with
  | nil => rfl
  | cons s first ih =>
    obtain ⟨t, more, hmore⟩ := List.exists_cons_of_ne_nil
      (show first ++ second ≠ [] by simp [h])
    rw [List.cons_append, List.cons_append, ← ih, hmore, rejoinLast]

namespace Token

/-! ## The last token -/

/-- Whether a token is a line of documentation. -/
def isDocLine : Token → Bool
  | .atom _ _ a => a.isDocLine
  | .group _ _ _ _ _ => false

/-- Whether the last token is a line of documentation. -/
def endsDocLine (ts : List Token) : Bool :=
  ts.getLast?.any isDocLine

/-- Whether a token is two single quotes. -/
def isQuotes : Token → Bool
  | .atom _ _ a => a.text = ['\'', '\'']
  | .group _ _ _ _ _ => false

/-- Whether the last token is two single quotes. -/
def endsQuotes (ts : List Token) : Bool :=
  ts.getLast?.any isQuotes

/-- The last glyph of a tree. -/
def closer : Token → Glyph
  | .atom _ _ a => .atom a
  | .group _ _ d _ _ => .closing d

/-- The last glyph of the tokens of a list. -/
def lastGlyph? (ts : List Token) : Option Glyph :=
  ts.getLast?.map closer

/-- The token with the record of the punctuation behind it made anew. -/
def rejoin (rest : Text) : Token → Token
  | .atom leading pos a => .atom leading pos (a.rejoin rest)
  | .group leading pos d children closeLeading => .group leading pos d children closeLeading

/-- The tokens, the record of punctuation of the last one made anew in front of `rest`. -/
def rejoinLast (rest : Text) : List Token → List Token
  | [] => []
  | [t] => [t.rejoin rest]
  | t :: u :: more => t :: rejoinLast rest (u :: more)

theorem signs_rejoin (rest : Text) (t : Token) :
    (t.rejoin rest).signs = Sign.rejoinLast rest t.signs := by
  cases t with
  | atom => rfl
  | group leading pos d children closeLeading =>
    rw [rejoin, signs, ← List.cons_append, Sign.rejoinLast_append _ _ (by simp)]
    rfl

theorem signsAll_rejoinLast (rest : Text) (ts : List Token) :
    signsAll (rejoinLast rest ts) = Sign.rejoinLast rest (signsAll ts) := by
  fun_induction rejoinLast rest ts with
  | case1 => rfl
  | case2 t => rw [signsAll_singleton, signsAll_singleton, signs_rejoin]
  | case3 t u more ih =>
    have hne : signsAll (u :: more) ≠ [] := by simp [signsAll_eq_nil_iff]
    rw [signsAll, ih, ← Sign.rejoinLast_append _ _ hne, ← signsAll]

theorem endsDocLine_eq (ts : List Token) :
    endsDocLine ts = (lastGlyph? ts).any Glyph.isDocLine := by
  have hcloser : isDocLine = fun t => t.closer.isDocLine := by
    funext t
    cases t <;> rfl
  rw [endsDocLine, lastGlyph?, Option.any_map, hcloser]

theorem endsQuotes_eq (ts : List Token) :
    endsQuotes ts = (lastGlyph? ts).any Glyph.isQuotes := by
  have hcloser : isQuotes = fun t => t.closer.isQuotes := by
    funext t
    cases t with
    | atom => rfl
    | group leading pos d children closeLeading => cases d <;> rfl
  rw [endsQuotes, lastGlyph?, Option.any_map, hcloser]

theorem lastGlyph?_cons_cons (t u : Token) (more : List Token) :
    lastGlyph? (t :: u :: more) = lastGlyph? (u :: more) := by
  rw [lastGlyph?, lastGlyph?, List.getLast?_cons_cons]

theorem getLast?_signs (t : Token) : t.signs.getLast?.map Sign.glyph = some t.closer := by
  cases t with
  | atom => rfl
  | group leading pos d children closeLeading =>
    rw [signs, ← List.cons_append, List.getLast?_concat]
    rfl

/-- The last sign of some trees is that of the last one. -/
theorem getLast?_signsAll (ts : List Token) :
    (signsAll ts).getLast?.map Sign.glyph = lastGlyph? ts := by
  induction ts with
  | nil => rfl
  | cons t ts ih =>
    cases ts with
    | nil =>
      rw [signsAll_singleton, getLast?_signs]
      rfl
    | cons u more =>
      have hne : signsAll (u :: more) ≠ [] := by simp [signsAll_eq_nil_iff]
      obtain ⟨s, hs⟩ := Option.isSome_iff_exists.1 (List.getLast?_isSome.2 hne)
      rw [lastGlyph?_cons_cons, ← ih, signsAll, List.getLast?_append, hs]
      rfl

theorem endsDocLine_signsAll (ts : List Token) :
    Sign.endsDocLine (signsAll ts) = endsDocLine ts := by
  rw [endsDocLine_eq, ← getLast?_signsAll, Option.any_map]
  rfl

theorem endsQuotes_signsAll (ts : List Token) :
    Sign.endsQuotes (signsAll ts) = endsQuotes ts := by
  rw [endsQuotes_eq, ← getLast?_signsAll, Option.any_map]
  rfl

/-! ## Excerpts -/

/-- The tokens without the blanks in front of them. -/
def trimFirst : List Token → List Token
  | [] => []
  | t :: rest => t.withLeading (Text.trimLeft t.leading) :: rest

/-- The tokens as they are in front of `rest`, without the blanks in front of them. -/
def excerpt (rest : Text) (ts : List Token) : List Token :=
  rejoinLast rest (trimFirst ts)

theorem lastGlyph?_trimFirst (ts : List Token) : lastGlyph? (trimFirst ts) = lastGlyph? ts := by
  rcases ts with _ | ⟨t, _ | ⟨u, more⟩⟩
  · rfl
  · cases t <;> rfl
  · rw [trimFirst, lastGlyph?_cons_cons, lastGlyph?_cons_cons]

theorem endsDocLine_trimFirst (ts : List Token) : endsDocLine (trimFirst ts) = endsDocLine ts := by
  rw [endsDocLine_eq, lastGlyph?_trimFirst, ← endsDocLine_eq]

theorem endsQuotes_trimFirst (ts : List Token) : endsQuotes (trimFirst ts) = endsQuotes ts := by
  rw [endsQuotes_eq, lastGlyph?_trimFirst, ← endsQuotes_eq]

theorem runs_trimFirst {ts : List Token} {rest : Text} (h : Runs (signsAll ts) rest) :
    Runs (signsAll (trimFirst ts)) rest := by
  cases ts with
  | nil => exact h
  | cons t ts =>
    rw [signsAll, signs_eq_cons] at h
    rw [trimFirst, signsAll, signs_withLeading]
    exact h.withLeading h.1.trimLeft

/-- The tokens run in front of some text that does not start with a quote, and they do not
end with a line of documentation. -/
structure Quotable (ts : List Token) : Prop where
  runs : ∃ rest, Runs (signsAll ts) rest ∧ rest.head? ≠ some '\''
  ends : endsDocLine ts = false

namespace Quotable

variable {ts : List Token}

theorem nil : Quotable [] := ⟨⟨[], trivial, by simp⟩, rfl⟩

/-- An excerpt runs in front of every seam. -/
theorem runs_excerpt (h : Quotable ts) {c : Char} (hc : isSeam c = true) (rest : Text) :
    Runs (signsAll (excerpt (c :: rest) ts)) (c :: rest) := by
  obtain ⟨old, hruns, hquote⟩ := h.runs
  rw [excerpt, signsAll_rejoinLast]
  refine (runs_trimFirst hruns).echo ?_ (.seam hc) fun hold => absurd hold hquote
  rw [endsDocLine_signsAll, endsDocLine_trimFirst]
  exact h.ends

end Quotable

/-- Only two quotes need the quote behind them. -/
theorem quotable_of_runs {ts : List Token} {rest : Text} (h : Runs (signsAll ts) rest)
    (hends : endsDocLine ts = false) (hquotes : endsQuotes ts = false) : Quotable ts := by
  by_cases hquote : rest.head? = some '\''
  · -- a space can take the place of the quote, for neither is punctuation
    have hsame : Sign.rejoinLast [' '] (signsAll ts) = signsAll ts := by
      refine h.rejoinLast_eq ?_
      rw [hquote]
      decide
    have hruns : Runs (Sign.rejoinLast [' '] (signsAll ts)) [' '] := by
      refine h.echo ?_ (.seam (by decide)) fun _ => .inr ?_
      · rw [endsDocLine_signsAll, hends]
      · rw [endsQuotes_signsAll, hquotes]
    rw [hsame] at hruns
    exact ⟨⟨[' '], hruns, by decide⟩, hends⟩
  · exact ⟨⟨rest, h, hquote⟩, hends⟩

end Token

/-! ## Stripped texts -/

namespace Text

theorem trimRight_of_endsBlank {t : Text} (h : t.endsBlank = false) : trimRight t = t := by
  rw [endsBlank, List.getLast?_eq_head?_reverse] at h
  rw [trimRight]
  cases hr : t.reverse with
  | nil => rw [List.reverse_eq_nil_iff] at hr; rw [hr]; rfl
  | cons c more =>
    rw [hr] at h
    have hc : isBlank c = false := h
    rw [List.dropWhile_cons_of_neg (by simp [hc]), ← hr, List.reverse_reverse]

theorem trimLeft_append {trivia t : Text} (h : t.head?.any isBlank = false) :
    trimLeft (trivia ++ t) = trimLeft trivia ++ t := by
  induction trivia with
  | nil =>
    cases t with
    | nil => rfl
    | cons c more =>
      have hc : isBlank c = false := h
      simp [trimLeft, hc]
  | cons c trivia ih =>
    by_cases hc : isBlank c = true
    · simpa [trimLeft, hc] using ih
    · simp [trimLeft, hc]

theorem endsBlank_trimLeft {t : Text} (h : t.endsBlank = false) :
    (trimLeft t).endsBlank = false := by
  by_cases hne : trimLeft t = []
  · rw [hne]
    rfl
  · have hsplit : t.takeWhile isBlank ++ trimLeft t = t := List.takeWhile_append_dropWhile
    rwa [← hsplit, endsBlank_append_of_ne_nil hne] at h

theorem trimLeft_of_head {t : Text} (h : t.head?.any isBlank = false) : trimLeft t = t := by
  cases t with
  | nil => rfl
  | cons c more => exact List.dropWhile_cons_of_neg (by simpa using h)

/-- A text without blanks at its ends is what stripping leaves of it. -/
theorem strip_of_ends {t : Text} (hhead : t.head?.any isBlank = false) (hends : t.endsBlank = false) :
    strip t = t := by
  rw [strip, trimLeft_of_head hhead, trimRight_of_endsBlank hends]

theorem endsBlank_strip (t : Text) : (strip t).endsBlank = false := by
  rw [strip, trimRight, endsBlank, List.getLast?_reverse]
  have hhead := List.head?_dropWhile_not isBlank (trimLeft t).reverse
  cases hd : (List.dropWhile isBlank (trimLeft t).reverse).head? with
  | none => rfl
  | some c =>
    rw [hd] at hhead
    simpa using hhead

theorem head_strip (t : Text) : (strip t).head?.any isBlank = false := by
  have hhead := List.head?_dropWhile_not isBlank t
  cases hs : strip t with
  | nil => rfl
  | cons c more =>
    -- stripping the end leaves a prefix
    have hprefix : strip t <+: trimLeft t := by
      have hsuffix : List.dropWhile isBlank (trimLeft t).reverse <:+ (trimLeft t).reverse :=
        List.dropWhile_suffix isBlank
      have := List.reverse_prefix.2 hsuffix
      rwa [List.reverse_reverse] at this
    obtain ⟨after, happend⟩ := hprefix
    rw [hs] at happend
    rw [← trimLeft, ← happend] at hhead
    simpa using hhead

theorem strip_strip (t : Text) : strip (strip t) = strip t :=
  strip_of_ends (head_strip t) (endsBlank_strip t)

end Text

namespace Token

theorem renderAll_rejoinLast (rest : Text) (ts : List Token) :
    renderAll (rejoinLast rest ts) = renderAll ts := by
  rw [← textAll_signsAll, signsAll_rejoinLast, Sign.textAll_rejoinLast, textAll_signsAll]

theorem endsBlank_of_runs {ts : List Token} {rest : Text} (h : Runs (signsAll ts) rest)
    (hends : endsDocLine ts = false) : (renderAll ts).endsBlank = false := by
  rw [← textAll_signsAll]
  refine h.endsBlank ?_
  rw [endsDocLine_signsAll, hends]

/-- Trivia in front of a token is told from it. -/
theorem renderAll_trimFirst {ts : List Token} {rest : Text} (h : Runs (signsAll ts) rest) :
    renderAll (trimFirst ts) = Text.trimLeft (renderAll ts) := by
  cases ts with
  | nil => rfl
  | cons t ts =>
    rw [signsAll, signs_eq_cons] at h
    obtain ⟨-, hg, -⟩ := h
    obtain ⟨c, more, htext, hstops, -⟩ := hg
    have hglyph : ∃ tail, (t.withLeading []).render = c :: tail := by
      cases t with
      | atom leading pos a =>
        have htext' : a.text = c :: more := htext
        exact ⟨more, by rw [withLeading, render, htext']; rfl⟩
      | group leading pos d children closeLeading =>
        have htext' : [d.opening] = c :: more := htext
        cases htext'
        exact ⟨_, by rw [withLeading, render]; rfl⟩
    obtain ⟨tail, htail⟩ := hglyph
    have hwhole : renderAll (t :: ts) = t.leading ++ (c :: tail ++ renderAll ts) := by
      rw [renderAll, ← withLeading_leading t, render_withLeading, leading_withLeading, htail,
        List.append_assoc]
    have htrimmed : renderAll (trimFirst (t :: ts)) =
        Text.trimLeft t.leading ++ (c :: tail ++ renderAll ts) := by
      rw [trimFirst, renderAll, render_withLeading, htail, List.append_assoc]
    rw [htrimmed, hwhole, Text.trimLeft_append]
    exact hstops.head_not_blank

theorem strip_of_runs {ts : List Token} {rest : Text} (h : Runs (signsAll ts) rest)
    (hends : endsDocLine ts = false) : Text.strip (renderAll ts) = renderAll (trimFirst ts) := by
  have hblank := Text.endsBlank_trimLeft (endsBlank_of_runs h hends)
  rw [Text.strip, Text.trimRight_of_endsBlank hblank, renderAll_trimFirst h]

/-- The text of an excerpt is the stripped text of the tokens. -/
theorem Quotable.render_excerpt {ts : List Token} (h : Quotable ts) (rest : Text) :
    renderAll (excerpt rest ts) = Text.strip (renderAll ts) := by
  obtain ⟨old, hruns, -⟩ := h.runs
  rw [excerpt, renderAll_rejoinLast, strip_of_runs hruns h.ends]

end Token

end CondAttrs
