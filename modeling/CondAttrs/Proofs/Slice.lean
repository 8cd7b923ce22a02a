import CondAttrs.Proofs.Lexical.InterpreterLine
import CondAttrs.Proofs.Lowering.Native

/-!
# Slices of a group

Conditions and attributes are taken out of a directive as texts, written between other tokens and
read again. This is sound if the tokens of a text do not depend on what stands around them, though
every kind of token is found by looking ahead: a number at the dots of a range, a word at the quote
of a literal, a lifetime at the quote of a character.

Any tokens that follow each other in a group can be taken out. Between parentheses of their own
they are read as the same tokens, without the blanks in front of the first one and with no
punctuation behind the last one. A line of documentation at their end is left aside, for it
swallows the closing parenthesis.

One token does depend on its surroundings. Whether a character literal starts at a quote is told
by the second character behind it, but the literal ends at the first quote behind it. So three
quotes in a row start with the literal of two quotes, which is no token anywhere else: a slice that
ends with it cannot be read.

## Main statements

* `Token.tokenize_excerpt`: tokens that can be quoted are read again between parentheses.
* `Token.tokenize_quotes`: tokens that end with two quotes are not.
* `tokenize_slice`: the two cases for every slice of every group of a text.
-/

namespace CondAttrs

/-! ## Faults -/

/-- Two quotes are read only in front of a third one. -/
theorem Glyph.read_quotes {rest : Text} (h : rest.head? ≠ some '\'') :
    read '\'' ('\'' :: rest) = .error (.characterUnterminated (some '\'')) := by
  have hatom : Atom.read '\'' ('\'' :: rest) = .error (.characterUnterminated (some '\'')) := by
    unfold Atom.read
    rw [Trivia.docMarker_none_of_ne (by decide)]
    have hstart : isWordStart '\'' = false := by decide
    simp [hstart, Atom.readApostrophe_cons, h, show Text.isDigit '\'' = false by decide]
  unfold read
  rw [hatom]
  rfl

/-- A fault inside an open group is the fault of the text. -/
theorem Lexing.tree_of_fault {ts : List Token} {lexemes : List Lexeme} {d : Delimiter}
    {e : Diagnostic}
    (h : lexemes.map Lexeme.sign = ⟨[], .opening d⟩ :: Token.signsAll ts) :
    (⟨lexemes, .error e⟩ : Lexing).tree = .error e := by
  obtain ⟨first, inside, rfl, hfirst, hinside⟩ := List.map_eq_cons_iff.1 h
  obtain ⟨leading, pos, glyph⟩ := first
  cases hfirst
  obtain ⟨ts', -, hbuild⟩ :=
    Nesting.build_signsAll ts hinside [⟨[], pos, d, []⟩] [] [] (.error e)
  rw [List.append_nil] at hbuild
  rw [tree, Nesting.build, hbuild, Nesting.build]

namespace Token

/-! ## Tokens of a group -/

/-- Behind the opening bracket of a group its tokens run. -/
theorem Settled.runs_children {t : Token} {rest : List Token} (h : Settled (t :: rest)) :
    ∃ after, Runs (signsAll t.children) after := by
  obtain ⟨after, h⟩ := h
  cases t with
  | atom => exact ⟨[], trivial⟩
  | group leading pos d children closeLeading =>
    rw [signsAll, signs, List.cons_append, Behind, runs_append, runs_append] at h
    exact ⟨_, h.2.1.1⟩

theorem runs_slice {before slice after : List Token} {rest : Text}
    (h : Runs (signsAll (before ++ (slice ++ after))) rest) :
    Runs (signsAll slice) (renderAll after ++ rest) := by
  rw [signsAll_append, signsAll_append, runs_append, runs_append, textAll_signsAll] at h
  exact h.2.1

/-! ## Slices that are read again -/

/-- A tree with the positions of a group erased is a group. -/
theorem exists_of_forget_group {t : Token} {leading closeLeading : Text} {pos : Position}
    {d : Delimiter} {children : List Token}
    (h : t.forget = .group leading pos d children closeLeading) :
    ∃ pos' children', t = .group leading pos' d children' closeLeading ∧
      forgetAll children' = children := by
  cases t with
  | atom => cases h
  | group _ pos' _ children' _ =>
    cases h
    exact ⟨pos', children', rfl, rfl⟩

/-- Tokens that can be quoted are read again between parentheses. -/
theorem tokenize_excerpt {ts : List Token} (h : Quotable ts) :
    ∃ pos children, tokenize ('(' :: (Text.strip (renderAll ts) ++ [')'])) =
        .ok ⟨[.group [] pos .paren children []], []⟩ ∧
      forgetAll children = forgetAll (excerpt [')'] ts) := by
  let group := enclosed .paren ⟨excerpt [')'] ts, []⟩
  have hruns : Runs (signsAll [group]) [] := by
    rw [signsAll_singleton]
    exact runs_enclosed ⟨h.runs_excerpt (by decide) [], Trivia.closed_nil⟩
  have hrender : renderAll [group] = '(' :: (Text.strip (renderAll ts) ++ [')']) := by
    rw [renderAll, render_enclosed, TokenStream.render, h.render_excerpt]
    simp [renderAll, Delimiter.opening, Delimiter.closing]
  obtain ⟨⟨tokens, trailing⟩, htokenize, rfl, hforget⟩ := tokenize_of_signs hruns fun more hmore => by
    rw [hrender] at hmore
    cases hmore
  rw [hrender] at htokenize
  rw [forgetAll_eq_map] at hforget
  obtain ⟨u, rfl, hu⟩ := List.map_eq_singleton_iff.1 hforget
  obtain ⟨pos, children, rfl, hchildren⟩ := exists_of_forget_group hu
  exact ⟨pos, children, htokenize, hchildren⟩

/-! ## Slices that end with two quotes -/

theorem exists_of_endsQuotes {ts : List Token} (h : endsQuotes ts = true) :
    ∃ first leading pos a, ts = first ++ [.atom leading pos a] ∧ a.text = ['\'', '\''] := by
  rw [endsQuotes, Option.any_eq_true] at h
  obtain ⟨t, hlast, ht⟩ := h
  obtain ⟨first, rfl⟩ := List.getLast?_eq_some_iff.1 hlast
  cases t with
  | atom leading pos a => exact ⟨first, leading, pos, a, rfl, of_decide_eq_true ht⟩
  | group => cases ht

/-- Tokens that end with two quotes are not read between parentheses. -/
theorem tokenize_quotes {ts : List Token} {rest : Text} (h : Runs (signsAll ts) rest)
    (hquotes : endsQuotes ts = true) :
    ∃ pos, tokenize ('(' :: (renderAll ts ++ [')'])) =
      .error (.lexical (.characterUnterminated (some '\'')) pos) := by
  obtain ⟨first, leading, pos, a, rfl, ha⟩ := exists_of_endsQuotes hquotes
  rw [signsAll_append, runs_append, signsAll_singleton, signs] at h
  obtain ⟨hfirst, hlast⟩ := h
  have htext : Sign.textAll [⟨leading, .atom a⟩] ++ [')'] = leading ++ '\'' :: '\'' :: [')'] := by
    simp [Sign.textAll, Sign.text, Glyph.text, ha]
  -- the tokens in front of the quotes do not notice that the third quote is gone
  have hruns : Runs (⟨[], .opening .paren⟩ :: signsAll first)
      (leading ++ '\'' :: '\'' :: [')']) := by
    refine ⟨Trivia.closed_nil, Glyph.fits_opening _ _, ?_⟩
    rw [← htext]
    exact hfirst.kin (hlast.kin_text (.seam (by decide)))
  have hstops : Trivia.Stops ('\'' :: '\'' :: [')']) :=
    Trivia.stops_of_ne (by decide) (by decide) _
  obtain ⟨lexemes, q, hscan, hsigns⟩ := Lexing.scan_runs hruns .start
  rw [Lexing.scan_of_fault hlast.1 hstops (Glyph.read_quotes (by decide)), List.append_nil] at hscan
  have hrender : Sign.textAll (⟨[], .opening .paren⟩ :: signsAll first) ++
      (leading ++ '\'' :: '\'' :: [')']) =
        '(' :: (renderAll (first ++ [.atom leading pos a]) ++ [')']) := by
    rw [← htext, Sign.textAll, ← textAll_signsAll, signsAll_append, Sign.textAll_append,
      signsAll_singleton, signs]
    simp [Sign.text, Glyph.text, Delimiter.opening]
  refine ⟨q.after leading, ?_⟩
  rw [tokenize_of_no_line (Trivia.readShebang_of_ne fun more hmore => by cases hmore), ← hrender,
    hscan, Lexing.tree_of_fault hsigns]

/-! ## All slices -/

theorem Within.of_getElem? {tokens ts : List Token} (h : Within tokens ts) {i : Nat} {t : Token}
    (ht : ts[i]? = some t) : ∃ rest, Within tokens (t :: rest) := by
  induction i generalizing ts with
  | zero =>
    cases ts with
    | nil => cases ht
    | cons u more =>
      cases ht
      exact ⟨more, h⟩
  | succ i ih =>
    cases ts with
    | nil => cases ht
    | cons u more => exact ih h.behind ht

end Token

/-- Tokens that follow each other in a group of a text, and do not end with a line of
documentation, are read again between parentheses of their own: as themselves, without the blanks
in front of the first one and with the parenthesis behind the last one. Only if they end with two
quotes there is no closing quote to be found. -/
theorem tokenize_slice {t : Text} {stream : TokenStream} (h : tokenize t = .ok stream)
    {group : Token} {rest : List Token} (hgroup : Token.Within stream.tokens (group :: rest))
    {before slice after : List Token} (hslice : group.children = before ++ (slice ++ after))
    (hline : Token.endsDocLine slice = false) :
    (Token.endsQuotes slice = false → ∃ pos children,
      tokenize ('(' :: (Text.strip (Token.renderAll slice) ++ [')'])) =
        .ok ⟨[.group [] pos .paren children []], []⟩ ∧
      Token.forgetAll children = Token.forgetAll (Token.excerpt [')'] slice)) ∧
    (Token.endsQuotes slice = true → ∃ pos,
      tokenize ('(' :: (Text.strip (Token.renderAll slice) ++ [')'])) =
        .error (.lexical (.characterUnterminated (some '\'')) pos)) := by
  have hsettled := Token.inherited_settled.within hgroup (Token.settled_of_tokenize h)
  obtain ⟨behind, hruns⟩ := hsettled.runs_children
  rw [hslice] at hruns
  have hruns := Token.runs_slice hruns
  constructor
  · intro hquotes
    exact Token.tokenize_excerpt (Token.quotable_of_runs hruns hline hquotes)
  · intro hquotes
    rw [Token.strip_of_runs hruns hline]
    refine Token.tokenize_quotes (Token.runs_trimFirst hruns) ?_
    rw [Token.endsQuotes_trimFirst, hquotes]

/-- The start of a range that includes its end. The second dot is no longer joined to what
follows it. -/
theorem tokenize_slice_range :
    ∃ stream outer inner rest before slice after,
      tokenize "f(a [0, 1..=2 'b] c)" = .ok stream ∧ stream.tokens[1]? = some outer ∧
      outer.children[1]? = some inner ∧ Token.Within stream.tokens (inner :: rest) ∧
      inner.children = before ++ (slice ++ after) ∧ Token.endsDocLine slice = false ∧
      Token.endsQuotes slice = false ∧ Token.renderAll slice = (" 1.." : Text) ∧
      ∃ pos children, tokenize "(1..)" = .ok ⟨[.group [] pos .paren children []], []⟩ ∧
        Token.forgetAll children = Token.forgetAll (Token.excerpt [')'] slice) := by
  obtain ⟨stream, htokenize, htest⟩ := @exists_of_tokenize "f(a [0, 1..=2 'b] c)"
    (fun stream => stream.tokens[1]?.any fun outer => outer.children[1]?.any fun inner =>
      let slice := (inner.children.drop 2).take 3
      !Token.endsDocLine slice && !Token.endsQuotes slice &&
        (Token.renderAll slice == (" 1.." : Text)))
    (by decide +kernel)
  simp only [Option.any_eq_true, Bool.and_eq_true, Bool.not_eq_true', beq_iff_eq] at htest
  obtain ⟨outer, houter, inner, hinner, ⟨hline, hquotes⟩, hrender⟩ := htest
  obtain ⟨rest', hwithin⟩ := Token.Within.whole.of_getElem? houter
  obtain ⟨rest, hwithin⟩ := hwithin.inside.of_getElem? hinner
  have hslice : inner.children = inner.children.take 2 ++
      ((inner.children.drop 2).take 3 ++ (inner.children.drop 2).drop 3) := by
    rw [List.take_append_drop, List.take_append_drop]
  have hread := (tokenize_slice htokenize hwithin hslice hline).1 hquotes
  rw [hrender] at hread
  exact ⟨stream, outer, inner, rest, _, _, _, htokenize, houter, hinner, hwithin, hslice, hline,
    hquotes, hrender, hread⟩

/-- Two quotes in front of a character literal are a literal. Without it they are none. -/
theorem tokenize_slice_quotes :
    ∃ stream group slice after, tokenize "('''a')" = .ok stream ∧
      stream.tokens[0]? = some group ∧ group.children = slice ++ after ∧
      Token.endsDocLine slice = false ∧ Token.renderAll slice = ("''" : Text) ∧
      tokenize "('')" = .error (.lexical (.characterUnterminated (some '\'')) ⟨1, 2⟩) := by
  obtain ⟨stream, htokenize, htest⟩ := @exists_of_tokenize "('''a')"
    (fun stream => stream.tokens[0]?.any fun group =>
      !Token.endsDocLine (group.children.take 1) &&
        (Token.renderAll (group.children.take 1) == ("''" : Text)))
    (by decide +kernel)
  simp only [Option.any_eq_true, Bool.and_eq_true, Bool.not_eq_true', beq_iff_eq] at htest
  obtain ⟨group, hgroup, hline, hrender⟩ := htest
  exact ⟨stream, group, group.children.take 1, group.children.drop 1, htokenize, hgroup,
    (List.take_append_drop 1 _).symm, hline, hrender,
    lexicalFault_eq_some_iff.1 (by decide +kernel)⟩

end CondAttrs
