import CondAttrs.Proofs.Lexical.Run
import CondAttrs.Token.Tree

/-!
# Token trees and their signs

Matching brackets loses nothing but the positions of closing brackets: the signs of
the trees that are built are the signs of the lexemes. Conversely every list of trees
is built again from its signs, up to positions. Trees that differ in positions only are
compared by `Token.forget`, which erases them.

With flat lexing this characterises reading a text: `tokenize` accepts exactly the texts
that are an interpreter line and a run, and returns the trees whose signs make up the
run.

## Main definitions

* `Token.signs`, `Token.signsAll`: the signs of trees.
* `Token.forget`, `Token.forgetAll`: trees without positions.
* `Token.prepend`: an interpreter line in front of the first trivia.

## Main statements

* `tokenize_runs`: the signs of what was read are a run.
* `tokenize_of_runs`: a run is read as the trees it was made of.
-/

namespace CondAttrs

namespace Token

/-! ## Signs -/

mutual

/-- The signs of a tree. -/
def signs : Token → List Sign
  | .atom leading _ a => [⟨leading, .atom a⟩]
  | .group leading _ d children closeLeading =>
    ⟨leading, .opening d⟩ :: (signsAll children ++ [⟨closeLeading, .closing d⟩])

/-- The signs of a list of trees. -/
def signsAll : List Token → List Sign
  | [] => []
  | t :: rest => signs t ++ signsAll rest

end

theorem signsAll_append (first second : List Token) :
    signsAll (first ++ second) = signsAll first ++ signsAll second := by
  induction first with
  | nil => rfl
  | cons t rest ih => simp [signsAll, ih]

theorem signsAll_singleton (t : Token) : signsAll [t] = t.signs := by
  simp [signsAll]

mutual

theorem textAll_signs : ∀ t : Token, Sign.textAll t.signs = t.render
  | .atom leading _ a => by
    simp [signs, Sign.textAll, Sign.text, Glyph.text, render]
  | .group leading _ d children closeLeading => by
    simp [signs, Sign.textAll, Sign.text, Glyph.text, render, Sign.textAll_append,
      textAll_signsAll children]

/-- The text of the signs is the text of the trees. -/
theorem textAll_signsAll : ∀ ts : List Token, Sign.textAll (signsAll ts) = renderAll ts
  | [] => rfl
  | t :: rest => by
    rw [signsAll, Sign.textAll_append, textAll_signs t, textAll_signsAll rest, renderAll]

end

/-! ## Trees without positions -/

mutual

/-- The tree with all positions erased. -/
def forget : Token → Token
  | .atom leading _ a => .atom leading .nowhere a
  | .group leading _ d children closeLeading =>
    .group leading .nowhere d (forgetAll children) closeLeading

/-- The trees with all positions erased. -/
def forgetAll : List Token → List Token
  | [] => []
  | t :: rest => forget t :: forgetAll rest

end

theorem forgetAll_eq_map (ts : List Token) : forgetAll ts = ts.map forget := by
  induction ts with
  | nil => rfl
  | cons t rest ih => rw [forgetAll, ih, List.map_cons]

theorem forgetAll_append (first second : List Token) :
    forgetAll (first ++ second) = forgetAll first ++ forgetAll second := by
  simp [forgetAll_eq_map]

mutual

theorem signs_forget : ∀ t : Token, t.forget.signs = t.signs
  | .atom _ _ _ => rfl
  | .group _ _ _ children _ => by
    simp only [forget, signs, signsAll_forgetAll children]

/-- Signs have no positions. -/
theorem signsAll_forgetAll : ∀ ts : List Token, signsAll (forgetAll ts) = signsAll ts
  | [] => rfl
  | t :: rest => by rw [forgetAll, signsAll, signsAll, signs_forget t, signsAll_forgetAll rest]

end

theorem renderAll_forgetAll (ts : List Token) : renderAll (forgetAll ts) = renderAll ts := by
  rw [← textAll_signsAll, ← textAll_signsAll, signsAll_forgetAll]

end Token

/-! ## Building trees -/

namespace Nesting

/-- The signs of the groups that are still open and of the tokens in them. -/
def pending : List Open → List Token → List Sign
  | [], done => Token.signsAll done.reverse
  | o :: outer, done =>
    pending outer o.before ++ (⟨o.leading, .opening o.delimiter⟩ :: Token.signsAll done.reverse)

theorem pending_cons (stack : List Open) (done : List Token) (t : Token) :
    pending stack (t :: done) = pending stack done ++ t.signs := by
  cases stack with
  | nil => simp [pending, Token.signsAll_append, Token.signsAll_singleton]
  | cons o outer => simp [pending, Token.signsAll_append, Token.signsAll_singleton]

/-- Matching brackets keeps the signs. -/
theorem signs_of_build {stack : List Open} {done : List Token} {lexemes : List Lexeme}
    {ending : Except Diagnostic Text} {stream : TokenStream}
    (h : build stack done lexemes ending = .ok stream) :
    ending = .ok stream.trailing ∧
      pending stack done ++ lexemes.map Lexeme.sign = Token.signsAll stream.tokens := by
  fun_induction build stack done lexemes ending with
  | case1 => cases h
  | case2 done trailing =>
    cases h
    simp [pending]
  | case3 => cases h
  | case4 stack done leading pos a rest ending ih =>
    obtain ⟨he, hs⟩ := ih h
    rw [pending_cons] at hs
    exact ⟨he, by simpa [Token.signs, Lexeme.sign] using hs⟩
  | case5 stack done leading pos d rest ending ih =>
    obtain ⟨he, hs⟩ := ih h
    exact ⟨he, by simpa [pending, Lexeme.sign, Token.signsAll] using hs⟩
  | case6 => cases h
  | case7 done leading pos rest ending innermost outer group ih =>
    obtain ⟨he, hs⟩ := ih h
    rw [pending_cons] at hs
    exact ⟨he, by simpa [pending, Lexeme.sign, Token.signs, group] using hs⟩
  | case8 => cases h

mutual

/-- The lexemes of a tree are built to that tree, up to positions. -/
theorem build_signs : ∀ (t : Token) {lexemes : List Lexeme}, lexemes.map Lexeme.sign = t.signs →
    ∀ (stack : List Open) (done : List Token) (more : List Lexeme)
      (ending : Except Diagnostic Text),
      ∃ t', t'.forget = t.forget ∧
        build stack done (lexemes ++ more) ending = build stack (t' :: done) more ending
  | .atom leading _ a, lexemes, h => by
    intro stack done more ending
    obtain ⟨l, rfl, hl⟩ : ∃ l, lexemes = [l] ∧ l.sign = ⟨leading, .atom a⟩ := by
      simpa [Token.signs, List.map_eq_cons_iff] using h
    obtain ⟨front, pos, _⟩ := l
    cases hl
    exact ⟨.atom front pos a, rfl, rfl⟩
  | .group leading _ d children closeLeading, lexemes, h => by
    intro stack done more ending
    rw [Token.signs, List.map_eq_cons_iff] at h
    obtain ⟨first, inside, rfl, hfirst, h⟩ := h
    rw [List.map_eq_append_iff] at h
    obtain ⟨inside, last, rfl, hinside, h⟩ := h
    obtain ⟨close, rfl, hclose⟩ : ∃ l, last = [l] ∧ l.sign = ⟨closeLeading, .closing d⟩ := by
      simpa [List.map_eq_cons_iff] using h
    obtain ⟨front, pos, _⟩ := first
    cases hfirst
    obtain ⟨back, pos', _⟩ := close
    cases hclose
    obtain ⟨children', hc, hb⟩ := build_signsAll children hinside (⟨front, pos, d, done⟩ :: stack)
      [] (⟨back, pos', .closing d⟩ :: more) ending
    refine ⟨.group front pos d children' back, ?_, ?_⟩
    · simp only [Token.forget, hc]
    · rw [List.cons_append, List.append_assoc, List.singleton_append, build, hb]
      simp [build]

/-- The lexemes of some trees are built to these trees, up to positions. -/
theorem build_signsAll : ∀ (ts : List Token) {lexemes : List Lexeme},
    lexemes.map Lexeme.sign = Token.signsAll ts →
    ∀ (stack : List Open) (done : List Token) (more : List Lexeme)
      (ending : Except Diagnostic Text),
      ∃ ts', Token.forgetAll ts' = Token.forgetAll ts ∧
        build stack done (lexemes ++ more) ending = build stack (ts'.reverse ++ done) more ending
  | [], lexemes, h => by
    intro stack done more ending
    obtain rfl : lexemes = [] := by simpa [Token.signsAll] using h
    exact ⟨[], rfl, rfl⟩
  | t :: rest, lexemes, h => by
    intro stack done more ending
    rw [Token.signsAll, List.map_eq_append_iff] at h
    obtain ⟨first, second, rfl, hfirst, hsecond⟩ := h
    obtain ⟨t', ht, hb⟩ := build_signs t hfirst stack done (second ++ more) ending
    obtain ⟨ts', hts, hb'⟩ := build_signsAll rest hsecond stack (t' :: done) more ending
    refine ⟨t' :: ts', ?_, ?_⟩
    · rw [Token.forgetAll, Token.forgetAll, ht, hts]
    · rw [List.append_assoc, hb, hb']
      simp

end

end Nesting

/-! ## Reading a text -/

namespace Token

/-- The first glyph of a tree. -/
def opener : Token → Glyph
  | .atom _ _ a => .atom a
  | .group _ _ d _ _ => .opening d

/-- The tree with other trivia in front. -/
def withLeading (leading : Text) : Token → Token
  | .atom _ pos a => .atom leading pos a
  | .group _ pos d children closeLeading => .group leading pos d children closeLeading

@[simp] theorem leading_withLeading (leading : Text) (t : Token) :
    (t.withLeading leading).leading = leading := by
  cases t <;> rfl

@[simp] theorem withLeading_leading (t : Token) : t.withLeading t.leading = t := by
  cases t <;> rfl

@[simp] theorem withLeading_withLeading (first second : Text) (t : Token) :
    (t.withLeading first).withLeading second = t.withLeading second := by
  cases t <;> rfl

theorem signs_withLeading (leading : Text) (t : Token) :
    (t.withLeading leading).signs = ⟨leading, t.opener⟩ :: t.signs.tail := by
  cases t <;> rfl

theorem signs_eq_cons (t : Token) : t.signs = ⟨t.leading, t.opener⟩ :: t.signs.tail := by
  cases t <;> rfl

theorem signsAll_eq_nil_iff {ts : List Token} : signsAll ts = [] ↔ ts = [] := by
  cases ts with
  | nil => simp [signsAll]
  | cons t rest =>
    rw [signsAll, signs_eq_cons t]
    simp

theorem render_withLeading (leading : Text) (t : Token) :
    (t.withLeading leading).render = leading ++ (t.withLeading []).render := by
  cases t <;> simp [withLeading, render]

end Token

/-- A line put in front of the first trivia. -/
def TokenStream.prepend (line : Text) : TokenStream → TokenStream
  | ⟨[], trailing⟩ => ⟨[], line ++ trailing⟩
  | ⟨t :: rest, trailing⟩ => ⟨t.withLeading (line ++ t.leading) :: rest, trailing⟩

/-- The trees of a stream are a run in front of the trivia at its end. -/
def TokenStream.Runs (s : TokenStream) : Prop :=
  CondAttrs.Runs (Token.signsAll s.tokens) s.trailing ∧ Trivia.Final s.trailing

theorem TokenStream.prepend_nil (st : TokenStream) : st.prepend [] = st := by
  obtain ⟨_ | ⟨t, ts⟩, trailing⟩ := st
  · rfl
  · rw [prepend, List.nil_append, Token.withLeading_leading]

theorem TokenStream.render_eq_textAll (s : TokenStream) :
    s.render = Sign.textAll (Token.signsAll s.tokens) ++ s.trailing := by
  rw [render, Token.textAll_signsAll]

theorem TokenStream.render_prepend (line : Text) (s : TokenStream) :
    (s.prepend line).render = line ++ s.render := by
  obtain ⟨_ | ⟨t, rest⟩, trailing⟩ := s
  · simp [prepend, render, Token.renderAll]
  · have ht : t.render = t.leading ++ (t.withLeading []).render := by
      rw [← Token.render_withLeading, Token.withLeading_leading]
    simp only [prepend, render, Token.renderAll, Token.render_withLeading (line ++ t.leading) t, ht,
      List.append_assoc]

/-- What is read from a text is an interpreter line and a run. -/
theorem tokenize_runs {t : Text} {stream : TokenStream} (h : tokenize t = .ok stream) :
    ∃ (line : Text) (source : TokenStream), Trivia.readShebang t = .ok (line, source.render) ∧
      source.Runs ∧ stream = source.prepend line := by
  unfold tokenize Lexing.ofText Lexing.tree at h
  split at h
  · cases h
  rename_i line rest hline
  cases hscan : Lexing.scan (Position.start.after line) rest with
  | mk lexemes ending =>
    rw [hscan] at h
    cases lexemes with
    | nil =>
      obtain ⟨hend, hsigns⟩ := Nesting.signs_of_build h
      cases ending with
      | error d => cases hend
      | ok trailing =>
        obtain ⟨htext, hruns, hf⟩ := Lexing.runs_of_scan hscan
        have hnil : stream.tokens = [] := Token.signsAll_eq_nil_iff.1 hsigns.symm
        refine ⟨line, ⟨[], trailing⟩, ?_, ⟨hruns, hf⟩, ?_⟩
        · rw [hline, ← htext]
          rfl
        · obtain ⟨tokens, trailing'⟩ := stream
          cases hend
          cases hnil
          rfl
    | cons first more =>
      obtain ⟨hend, hsigns⟩ := Nesting.signs_of_build h
      obtain ⟨tokens, trailing⟩ := stream
      cases hend
      obtain ⟨htext, hruns, hf⟩ := Lexing.runs_of_scan hscan
      cases tokens with
      | nil => simp [Lexing.prepend, Nesting.pending, Token.signsAll] at hsigns
      | cons t ts =>
        -- the first sign of the first tree is that of the first lexeme, behind the line
        rw [Token.signsAll, Token.signs_eq_cons t] at hsigns
        simp only [Lexing.prepend, Nesting.pending, List.reverse_nil, Token.signsAll,
          List.nil_append, List.map_cons, Lexeme.sign, List.cons_append, List.cons.injEq, Sign.mk.injEq] at hsigns
        obtain ⟨⟨hlead, hopen⟩, hmore⟩ := hsigns
        have hsource : Token.signsAll (t.withLeading first.leading :: ts) =
            (first :: more).map Lexeme.sign := by
          rw [Token.signsAll, Token.signs_withLeading, ← hopen, List.map_cons, Lexeme.sign,
            List.cons_append, ← hmore]
        refine ⟨line, ⟨t.withLeading first.leading :: ts, trailing⟩, ?_, ⟨?_, hf⟩, ?_⟩
        · rw [hline, ← htext, ← hsource, Token.textAll_signsAll]
          rfl
        · show Runs (Token.signsAll (t.withLeading first.leading :: ts)) trailing
          rw [hsource]
          exact hruns
        · simp only [TokenStream.prepend, Token.leading_withLeading,
            Token.withLeading_withLeading, hlead, Token.withLeading_leading]

/-- An interpreter line and a run are read as the trees they were made of. -/
theorem tokenize_of_runs {t line : Text} {source : TokenStream}
    (hline : Trivia.readShebang t = .ok (line, source.render)) (h : source.Runs) :
    ∃ stream, tokenize t = .ok stream ∧ stream.trailing = (source.prepend line).trailing ∧
      Token.forgetAll stream.tokens = Token.forgetAll (source.prepend line).tokens := by
  obtain ⟨tokens, trailing⟩ := source
  obtain ⟨hruns, hf⟩ := h
  obtain ⟨lexemes, hscan, hsigns⟩ := Lexing.scan_of_runs hruns hf (Position.start.after line)
  rw [Token.textAll_signsAll] at hscan
  have htokenize : tokenize t = ((⟨lexemes, .ok trailing⟩ : Lexing).prepend line).tree := by
    unfold tokenize Lexing.ofText
    rw [hline]
    exact congrArg (fun l => (Lexing.prepend line l).tree) hscan
  cases lexemes with
  | nil =>
    have hnil : tokens = [] := Token.signsAll_eq_nil_iff.1 hsigns.symm
    subst hnil
    exact ⟨⟨[], line ++ trailing⟩, htokenize, rfl, rfl⟩
  | cons first more =>
    cases tokens with
    | nil => simp [Token.signsAll] at hsigns
    | cons u ts =>
      rw [Token.signsAll, Token.signs_eq_cons u] at hsigns
      simp only [List.map_cons, Lexeme.sign, List.cons_append, List.cons.injEq,
        Sign.mk.injEq] at hsigns
      obtain ⟨⟨hlead, hopen⟩, hmore⟩ := hsigns
      have hsigns' : (⟨line ++ first.leading, first.pos, first.glyph⟩ :: more).map Lexeme.sign =
          Token.signsAll (u.withLeading (line ++ u.leading) :: ts) := by
        rw [List.map_cons, Lexeme.sign, Token.signsAll, Token.signs_withLeading, ← hopen, hlead,
          List.cons_append, ← hmore]
      obtain ⟨ts', hforget, hbuild⟩ := Nesting.build_signsAll _ hsigns' [] [] [] (.ok trailing)
      refine ⟨⟨ts', trailing⟩, ?_, rfl, hforget⟩
      rw [htokenize]
      simp only [Lexing.tree, Lexing.prepend]
      rw [← List.append_nil (⟨line ++ first.leading, first.pos, first.glyph⟩ :: more), hbuild]
      simp [Nesting.build]

/-- Nothing of a text is lost in its token trees. -/
theorem render_of_tokenize {t : Text} {stream : TokenStream} (h : tokenize t = .ok stream) :
    stream.render = t := by
  obtain ⟨line, source, hline, -, rfl⟩ := tokenize_runs h
  rw [TokenStream.render_prepend, Trivia.readShebang_append hline]

/-- A test that is run on the tokens of a text. -/
theorem exists_of_tokenize {t : Text} {test : TokenStream → Bool}
    (h : (tokenize t).toOption.any test = true) :
    ∃ stream, tokenize t = .ok stream ∧ test stream = true := by
  cases htokenize : tokenize t with
  | error d =>
    rw [htokenize] at h
    cases h
  | ok stream =>
    rw [htokenize] at h
    exact ⟨stream, rfl, h⟩

end CondAttrs
