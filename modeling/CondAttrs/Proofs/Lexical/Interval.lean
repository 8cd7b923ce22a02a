import CondAttrs.Proofs.Lexical.Standing
import Mathlib.Data.List.Induction

/-!
# The intervals of tokens

A text is divided by its tokens without a gap: the trivia in front of the first token, the first
token, the trivia in front of the second one, and so on, a group being its opening bracket, what
it holds, the trivia in front of its closing bracket and that bracket. So every token has an
interval of offsets in the text, and what the tree records about the token can be told from the
text alone: its line and column are counted in the text in front of the interval, and whether a
punctuation character is joined to the next one is seen at the end of the interval.

## Main definitions

* `Text.Reads`: what a text holds between two offsets.
* `Position.ofOffset`: the line and column at an offset.
* `Token.OccupiesAll`: tokens fill an interval of a text.

## Main statements

* `Position.after_start`: a position that was moved along a text is that of its end.
* `tokenize_occupies`: the tokens of a text fill it.
-/

namespace CondAttrs

/-! ## Offsets -/

namespace Text

/-- The text holds `u` from the offset `a` up to the offset `b`. -/
def Reads (t : Text) (a b : Nat) (u : Text) : Prop :=
  a ≤ b ∧ b ≤ t.length ∧ (t.take b).drop a = u

theorem reads_of_eq {t before u after : Text} (h : t = before ++ (u ++ after)) :
    t.Reads before.length (before ++ u).length u := by
  subst h
  refine ⟨?_, ?_, ?_⟩
  · rw [List.length_append]
    omega
  · simp only [List.length_append]
    omega
  · rw [← List.append_assoc, List.take_left, List.drop_left]

end Text

namespace Position

/-- The line and column of the character at an offset: one more than the line feeds in front of
it, and one more than the characters behind the last of these. -/
def ofOffset (t : Text) (offset : Nat) : Position :=
  ⟨1 + (t.take offset).count '\n',
    1 + ((t.take offset).reverse.takeWhile (· ≠ '\n')).length⟩

/-- A position that is moved along a whole text stands at the offset of its end. -/
theorem after_start (t : Text) : start.after t = ofOffset t t.length := by
  rw [ofOffset, List.take_length]
  induction t using List.reverseRecOn with
  | nil => rfl
  | append_singleton t c ih =>
    rw [after_append, ih, after_cons, after_nil, step, List.reverse_append, List.count_append]
    by_cases hc : c = '\n'
    · subst hc
      simp [Nat.add_assoc]
    · simp [hc, Nat.add_assoc, Nat.add_comm 1]

theorem after_eq_ofOffset {t before after : Text} (h : t = before ++ after) :
    start.after before = ofOffset t before.length := by
  rw [after_start, ofOffset, ofOffset, h, List.take_left, List.take_length]

end Position

/-! ## Intervals -/

/-- A punctuation character that ends at an offset of a text is joint if and only if another one
stands there. -/
def Atom.JoinedAt (t : Text) (offset : Nat) : Atom → Prop
  | punct _ joint => joint = true ↔ ∃ c, t[offset]? = some c ∧ isPunctuation c = true
  | _ => True

namespace Token

mutual

/-- The token and the trivia in front of it fill the text from `a` to `b`. The token itself
starts at some offset between them, and its position is that of this offset. -/
def Occupies (t : Text) (a b : Nat) : Token → Prop
  | atom leading pos a' => ∃ s,
      t.Reads a s leading ∧ t.Reads s b a'.text ∧ pos = .ofOffset t s ∧ a'.JoinedAt t b
  | .group leading pos d children closeLeading => ∃ s e c,
      t.Reads a s leading ∧ t.Reads s (s + 1) [d.opening] ∧ pos = .ofOffset t s ∧
      OccupiesAll t (s + 1) e children ∧
      t.Reads e c closeLeading ∧ t.Reads c b [d.closing]

/-- The tokens fill the text from `a` to `b`, one behind the other. -/
def OccupiesAll (t : Text) (a b : Nat) : List Token → Prop
  | [] => a = b
  | first :: rest => ∃ m, Occupies t a m first ∧ OccupiesAll t m b rest

end

end Token

/-! ## Joint punctuation -/

/-- The record of punctuation of every sign is right in front of what follows. -/
def Sign.JoinedAll : List Sign → Text → Prop
  | [], _ => True
  | s :: more, rest => s.glyph.rejoin (textAll more ++ rest) = s.glyph ∧ JoinedAll more rest

theorem Sign.joinedAll_append {first second : List Sign} {rest : Text} :
    JoinedAll (first ++ second) rest ↔
      JoinedAll first (textAll second ++ rest) ∧ JoinedAll second rest := by
  induction first with
  | nil => simp [JoinedAll]
  | cons s more ih =>
    simp only [List.cons_append, JoinedAll, textAll_append, List.append_assoc, ih, and_assoc]

theorem Runs.joinedAll {signs : List Sign} {rest : Text} (h : Runs signs rest) :
    Sign.JoinedAll signs rest := by
  induction signs with
  | nil => trivial
  | cons s more ih => exact ⟨h.2.1.rejoin_eq rfl, ih h.2.2⟩

/-- An interpreter line in front of the first trivia joins nothing. -/
theorem TokenStream.joinedAll_prepend {source : TokenStream} (line : Text)
    (h : Sign.JoinedAll (Token.signsAll source.tokens) source.trailing) :
    Sign.JoinedAll (Token.signsAll (source.prepend line).tokens)
      (source.prepend line).trailing := by
  obtain ⟨tokens, trailing⟩ := source
  cases tokens with
  | nil => trivial
  | cons t rest =>
    rw [prepend, Token.signsAll, Token.signs_withLeading]
    rw [Token.signsAll, Token.signs_eq_cons t] at h
    exact h

theorem Atom.joinedAt_of_rejoin {a : Atom} {t before after : Text} (ht : t = before ++ after)
    (h : a.rejoin after = a) : a.JoinedAt t before.length := by
  cases a with
  | punct c joint =>
    have hjoint : after.head?.any isPunctuation = joint := by simpa [rejoin] using h
    have hnext : t[before.length]? = after.head? := by
      rw [ht, List.getElem?_append_right (Nat.le_refl _), Nat.sub_self, List.head?_eq_getElem?]
    rw [JoinedAt, ← hjoint, hnext]
    cases after.head? <;> simp
  | ident name => trivial
  | lifetime text => trivial
  | literal text => trivial
  | doc marker value => trivial

/-! ## Trees -/

namespace Token

mutual

/-- A token that stands behind a text, and is rightly joined to what follows, fills its part of
the whole. -/
theorem Stands.occupies : ∀ {tok : Token} {t before after : Text},
    Stands (Position.start.after before) tok → Sign.JoinedAll tok.signs after →
    t = before ++ (tok.render ++ after) →
      Occupies t before.length (before ++ tok.render).length tok
  | .atom leading pos a, t, before, after, ⟨hpos, _⟩, ⟨hjoined, _⟩, ht => by
    have htext : t = (before ++ leading) ++ (a.text ++ after) := by
      rw [ht, render, List.append_assoc, List.append_assoc]
    have hend : before ++ render (.atom leading pos a) = (before ++ leading) ++ a.text := by
      rw [render, List.append_assoc]
    rw [hend]
    refine ⟨(before ++ leading).length, ?_, Text.reads_of_eq htext, ?_, ?_⟩
    · rw [List.append_assoc] at htext
      exact Text.reads_of_eq htext
    · rw [hpos, ← Position.after_append]
      exact Position.after_eq_ofOffset htext
    · rw [← List.append_assoc] at htext
      exact Atom.joinedAt_of_rejoin htext (by simpa [Sign.textAll, Glyph.rejoin] using hjoined)
  | .group leading pos d children closeLeading, t, before, after, ⟨hpos, hchildren⟩, hjoined, ht => by
    -- the texts up to the opening bracket, behind it, behind the children, up to the closing one
    obtain ⟨opened, hopened⟩ : ∃ u, u = before ++ leading := ⟨_, rfl⟩
    obtain ⟨entered, hentered⟩ : ∃ u, u = opened ++ [d.opening] := ⟨_, rfl⟩
    obtain ⟨filled, hfilled⟩ : ∃ u, u = entered ++ renderAll children := ⟨_, rfl⟩
    obtain ⟨closed, hclosed⟩ : ∃ u, u = filled ++ closeLeading := ⟨_, rfl⟩
    have htext : t = before ++ (leading ++ ([d.opening] ++ (renderAll children ++
        (closeLeading ++ ([d.closing] ++ after))))) := by
      simp [ht, render]
    have hend : before ++ render (.group leading pos d children closeLeading) =
        closed ++ [d.closing] := by
      simp [render, hclosed, hfilled, hentered, hopened]
    have hleading := Text.reads_of_eq htext
    rw [← List.append_assoc, ← hopened] at htext
    have hopening := Text.reads_of_eq htext
    have hposition := Position.after_eq_ofOffset htext
    rw [← List.append_assoc, ← hentered] at htext
    have hin := hchildren
    rw [hpos, ← Position.after_append, ← hopened, ← Position.after_nil (Position.step _ _),
      ← Position.after_cons, ← Position.after_append, ← hentered] at hin
    obtain ⟨-, hinside⟩ := hjoined
    have hfill := hin.occupiesAll (Sign.joinedAll_append.1 hinside).1
      (by simpa [Sign.textAll, Sign.text, Glyph.text] using htext)
    rw [← List.append_assoc, ← hfilled] at htext
    have hcloseLeading := Text.reads_of_eq htext
    rw [← List.append_assoc, ← hclosed] at htext
    have hclosing := Text.reads_of_eq htext
    have hnext : opened.length + 1 = entered.length := by rw [hentered, List.length_append]; rfl
    rw [hend]
    refine ⟨opened.length, filled.length, closed.length, ?_, ?_, ?_, ?_, ?_, hclosing⟩
    · rw [hopened]
      exact hleading
    · rw [hnext, hentered]
      exact hopening
    · rw [hpos, ← Position.after_append, ← hopened]
      exact hposition
    · rw [hnext, hfilled]
      exact hfill
    · rw [hclosed]
      exact hcloseLeading

theorem StandsAll.occupiesAll : ∀ {ts : List Token} {t before after : Text},
    StandsAll (Position.start.after before) ts → Sign.JoinedAll (signsAll ts) after →
    t = before ++ (renderAll ts ++ after) →
      OccupiesAll t before.length (before ++ renderAll ts).length ts
  | [], t, before, after, _, _, _ => by simp [OccupiesAll, renderAll]
  | tok :: rest, t, before, after, ⟨htok, hrest⟩, hjoined, ht => by
    rw [signsAll, Sign.joinedAll_append, textAll_signsAll] at hjoined
    rw [renderAll, List.append_assoc] at ht
    rw [renderAll, ← List.append_assoc]
    rw [← Position.after_append] at hrest
    exact ⟨(before ++ tok.render).length, htok.occupies hjoined.1 ht,
      hrest.occupiesAll hjoined.2 (by rw [ht, List.append_assoc])⟩

end

end Token

/-- The tokens of a text and the trivia between them fill the text. Every token, at whatever depth,
and every bracket has an interval of the text that holds it; the position of a token is that of
the start of its interval, and punctuation is joint if there is punctuation at the end of it. -/
theorem tokenize_occupies {t : Text} {stream : TokenStream} (h : tokenize t = .ok stream) :
    Token.renderAll stream.tokens ++ stream.trailing = t ∧
      ∃ b, Token.OccupiesAll t 0 b stream.tokens ∧ t.Reads b t.length stream.trailing := by
  have hrender : Token.renderAll stream.tokens ++ stream.trailing = t := render_of_tokenize h
  have hjoined : Sign.JoinedAll (Token.signsAll stream.tokens) stream.trailing := by
    obtain ⟨line, source, -, hruns, rfl⟩ := tokenize_runs h
    exact TokenStream.joinedAll_prepend line hruns.1.joinedAll
  have hstands : Token.StandsAll (Position.start.after []) stream.tokens := standsAll_of_tokenize h
  refine ⟨hrender, (Token.renderAll stream.tokens).length, ?_, ?_⟩
  · exact hstands.occupiesAll hjoined hrender.symm
  · have htrailing : t = Token.renderAll stream.tokens ++ (stream.trailing ++ []) := by
      rw [List.append_nil, hrender]
    have hreads := Text.reads_of_eq htrailing
    rwa [hrender] at hreads

/-- An interpreter line, a comment and a string that go on in the next line, nested brackets, and
joint punctuation. -/
theorem tokenize_occupies_lines :
    let t : Text := "#!/bin/sh\n/* a\n   b */ f(\"x\ny\" -> [\n  z])// w"
    ∃ stream, tokenize t = .ok stream ∧
      Token.positionsAll stream.tokens =
        [⟨3, 9⟩, ⟨3, 10⟩, ⟨3, 11⟩, ⟨4, 4⟩, ⟨4, 5⟩, ⟨4, 7⟩, ⟨5, 3⟩] ∧
      Token.renderAll stream.tokens ++ stream.trailing = t ∧
      ∃ b, Token.OccupiesAll t 0 b stream.tokens ∧ t.Reads b t.length stream.trailing := by
  intro t
  obtain ⟨stream, htokenize, hpositions⟩ := @exists_of_tokenize t
    (fun stream => Token.positionsAll stream.tokens =
      [⟨3, 9⟩, ⟨3, 10⟩, ⟨3, 11⟩, ⟨4, 4⟩, ⟨4, 5⟩, ⟨4, 7⟩, ⟨5, 3⟩])
    (by decide +kernel)
  exact ⟨stream, htokenize, of_decide_eq_true hpositions, tokenize_occupies htokenize⟩

end CondAttrs
