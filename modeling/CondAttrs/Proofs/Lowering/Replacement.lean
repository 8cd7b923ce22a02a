import CondAttrs.Proofs.Lowering.Content
import CondAttrs.Proofs.Reading.Cell

/-!
# What takes the place of an annotation

A directive is replaced by its native attribute, a faulty annotation by an attribute that
carries the message. Both are forms, written here as tokens behind given trivia. They run
in front of anything, because they end with a bracket.

The trivia in front of the first annotation of a file may start with an interpreter line,
which is no trivia elsewhere. `Behind` therefore says that signs run and leaves out
what is in front of the first of them.

## Main definitions

* `Behind`: signs run behind the trivia of the first one.
* `Body.nativeForm`, `Embed.errorForm`.

## Main statements

* `Body.Genuine.behind_native`, `Embed.behind_error`: the forms run in front of anything.
* `Body.Genuine.render_native`, `Embed.render_error`: their texts are what is written.
-/

namespace CondAttrs

/-! ## Behind the first trivia -/

/-- Lexing finds the signs in front of `rest`, behind the trivia of the first one. -/
def Behind : List Sign → Text → Prop
  | [], _ => True
  | s :: more, rest => s.glyph.Fits (Sign.textAll more ++ rest) ∧ Runs more rest

theorem Runs.behind {signs : List Sign} {rest : Text} (h : Runs signs rest) :
    Behind signs rest := by
  cases signs with
  | nil => trivial
  | cons s more => exact h.2

theorem runs_cons_iff {s : Sign} {more : List Sign} {rest : Text} :
    Runs (s :: more) rest ↔ Trivia.Closed s.leading ∧ Behind (s :: more) rest := Iff.rfl

/-! ## The native attribute -/

/-- The arguments of the native attribute. -/
def Body.arguments (b : Body Attribute) : TokenStream :=
  Arguments.stream b.condition (Attribute.contentTokensAll b.attributes)

/-- The native attribute of a directive. -/
def Body.nativeForm (s : Settings) (leading : Text) (inner : Bool) (b : Body Attribute) : Form :=
  .marked (.mark leading '#' inner) (if inner then some (.mark [] '!' false) else none)
    (.enclosed .bracket ⟨[.word [] s.native, .enclosed .paren b.arguments], []⟩)

/-- The arguments of a directive can be quoted. -/
def Body.Genuine (s : Settings) (b : Body Attribute) : Prop :=
  Token.IsCondition b.condition ∧ Attribute.GenuineAll s b.attributes

namespace Body

variable {s : Settings} {b : Body Attribute}

theorem Genuine.inside_arguments (h : b.Genuine s) (rest : Text) :
    b.arguments.Inside (')' :: rest) :=
  Arguments.inside_paren h.1.quotable (Attribute.GenuineAll.fluent h.2).1 rest

theorem Genuine.render_arguments (h : b.Genuine s) :
    b.arguments.render =
      conditionalArguments b.conditionText (Attribute.contents b.attributes) := by
  obtain ⟨hfluent, htext⟩ := Attribute.GenuineAll.fluent h.2
  rw [arguments, Arguments.render_stream h.1.quotable hfluent, htext]
  rfl

/-- The native attribute runs in front of anything. -/
theorem Genuine.behind_native (h : b.Genuine s) (hnative : Settings.isIdentifier s.native = true)
    (leading : Text) (inner : Bool) (rest : Text) :
    Behind (Token.signsAll (b.nativeForm s leading inner).tokens) rest := by
  have hinside : ∀ rest, TokenStream.Inside
      ⟨[.word [] s.native, .enclosed .paren b.arguments], []⟩ (']' :: rest) := by
    intro rest
    refine ⟨?_, Trivia.closed_nil⟩
    refine Token.runs_word Trivia.closed_nil hnative ?_ ?_
    · rw [Token.renderAll, Token.render_enclosed]
      rfl
    · rw [Token.signsAll_singleton]
      exact Token.runs_enclosed (h.inside_arguments _)
  have hbracket := Token.runs_enclosed (d := .bracket) (hinside rest)
  cases inner with
  | false =>
    have hruns : Runs (Token.signsAll (b.nativeForm s [] false).tokens) rest := by
      refine Token.runs_mark Trivia.closed_nil (by decide) rfl ?_
      exact (Token.signsAll_singleton _).symm ▸ hbracket
    exact hruns.behind
  | true =>
    have hruns : Runs (Token.signsAll (b.nativeForm s [] true).tokens) rest := by
      refine Token.runs_mark Trivia.closed_nil (by decide) rfl ?_
      refine Token.runs_mark Trivia.closed_nil (by decide) rfl ?_
      exact (Token.signsAll_singleton _).symm ▸ hbracket
    exact hruns.behind

theorem Genuine.render_native (h : b.Genuine s) (leading : Text) (inner : Bool) :
    Token.renderAll (b.nativeForm s leading inner).tokens = leading ++ b.native s inner := by
  have hbracket : (Token.enclosed .bracket
      ⟨[.word [] s.native, .enclosed .paren b.arguments], []⟩).render =
      "[" ++ s.native ++ "(" ++
        conditionalArguments b.conditionText (Attribute.contents b.attributes) ++ ")]" := by
    rw [Token.render_enclosed, TokenStream.render, Token.renderAll, Token.renderAll,
      Token.renderAll, Token.render_enclosed, h.render_arguments]
    simp [Token.word, Token.render, Atom.text, Delimiter.opening, Delimiter.closing]
  cases inner with
  | false =>
    simp only [nativeForm, Form.tokens, Bool.false_eq_true, ↓reduceIte, Option.toList,
      List.nil_append, Token.renderAll, hbracket, native, Token.mark, Token.render, Atom.text]
    simp
  | true =>
    simp only [nativeForm, Form.tokens, ↓reduceIte, Option.toList, List.cons_append,
      List.nil_append, Token.renderAll, hbracket, native, Token.mark, Token.render, Atom.text]
    simp

theorem isAttribute_native (s : Settings) (leading : Text) (inner : Bool) (b : Body Attribute) :
    (b.nativeForm s leading inner).IsAttribute := by
  cases inner <;> simp [nativeForm, Form.IsAttribute, Token.mark, Token.isPunct, Token.enclosed,
    Token.isGroup]

/-- The native attribute has the name of the native attribute. -/
theorem name_native (s : Settings) (leading : Text) (inner : Bool) (b : Body Attribute) :
    (b.nativeForm s leading inner).name = s.native := by
  simp [nativeForm, Form.name, Form.path, Form.content, Token.enclosed, Token.children,
    AttributePath.split, AttributePath.spanSegments, AttributePath.name, Token.word, Token.isIdent,
    Token.ident?]

end Body

/-! ## The attribute that carries an error -/

namespace Embed

/-- The attribute that fails with a message. -/
def errorForm (s : Settings) (leading message : Text) : Form :=
  .marked (.mark leading '#' false) none
    (.enclosed .bracket
      ⟨[.word [] "doc", .mark [' '] '=' false, .mark [' '] ':' true, .mark [] ':' false,
        .word [] "core", .mark [] ':' true, .mark [] ':' false, .word [] s.errorName,
        .mark [] '!' false,
        .enclosed .paren ⟨[.atom [] .nowhere (.literal (Text.Quoted.encode message))], []⟩], []⟩)

/-- The path of the failing invocation and its mark. -/
def invocationTokens (s : Settings) (leading : Text) : List Token :=
  [.mark leading ':' true, .mark [] ':' false, .word [] "core", .mark [] ':' true,
    .mark [] ':' false, .word [] s.errorName, .mark [] '!' false]

theorem runs_invocation {s : Settings} {leading rest : Text} {ts : List Token}
    (hname : (Glyph.atom (.ident s.errorName)).Fits []) (hl : Trivia.Closed leading)
    (hhead : (Token.renderAll ts ++ rest).head?.any isPunctuation = false)
    (h : Runs (Token.signsAll ts) rest) :
    Runs (Token.signsAll (invocationTokens s leading ++ ts)) rest := by
  obtain ⟨c, more, hcons, hc⟩ := hname.exists_isWordStart
  have hpunct : isPunctuation c = false := by
    have hclass : ∀ c ∈ punctuation, isWordStart c = false := forall_of_all (by decide)
    rw [← Bool.not_eq_true]
    intro hp
    rw [hclass c (by simpa [isPunctuation] using hp)] at hc
    cases hc
  refine Token.runs_mark hl (by decide) rfl ?_
  refine Token.runs_mark Trivia.closed_nil (by decide) rfl ?_
  refine Token.runs_word Trivia.closed_nil (by decide) rfl ?_
  refine Token.runs_mark Trivia.closed_nil (by decide) rfl ?_
  refine Token.runs_mark Trivia.closed_nil (by decide) ?_ ?_
  · simp [Token.renderAll, Token.word, Token.render, Atom.text, hcons, hpunct]
  refine Token.runs_ident Trivia.closed_nil hname rfl ?_
  exact Token.runs_mark Trivia.closed_nil (by decide) hhead h

/-- The attribute runs in front of anything. -/
theorem runs_error {s : Settings} (hname : (Glyph.atom (.ident s.errorName)).Fits [])
    (message rest : Text) : Runs (Token.signsAll (errorForm s [] message).tokens) rest := by
  refine Token.runs_mark Trivia.closed_nil (by decide) rfl ?_
  refine (Token.signsAll_singleton _).symm ▸ ?_
  refine Token.runs_enclosed ⟨?_, Trivia.closed_nil⟩
  refine Token.runs_word Trivia.closed_nil (by decide) rfl ?_
  refine Token.runs_mark Trivia.closed_space (by decide) rfl ?_
  refine runs_invocation hname Trivia.closed_space rfl ?_
  rw [Token.signsAll_singleton]
  refine Token.runs_enclosed ⟨?_, Trivia.closed_nil⟩
  exact ⟨Trivia.closed_nil, Glyph.fits_encode message (by decide), trivial⟩

theorem behind_error {s : Settings} (herror : Settings.isIdentifier s.errorName = true)
    (leading message rest : Text) :
    Behind (Token.signsAll (errorForm s leading message).tokens) rest :=
  (runs_error (Settings.fits_of_isIdentifier herror) message rest).behind

theorem render_error (s : Settings) (leading message : Text) :
    Token.renderAll (errorForm s leading message).tokens = attributeText s leading message := by
  unfold errorForm Form.tokens
  simp only [Option.toList, List.nil_append, Token.renderAll, Token.render_enclosed,
    TokenStream.render, Token.render_mark, Token.render_word]
  unfold attributeText invocation
  simp [Delimiter.opening, Delimiter.closing, Token.render, Atom.text]

theorem isAttribute_error (s : Settings) (leading message : Text) :
    (errorForm s leading message).IsAttribute := by
  simp [errorForm, Form.IsAttribute, Token.mark, Token.isPunct, Token.enclosed, Token.isGroup]

/-- The path is a single word, and all else is argument. -/
theorem split_error (s : Settings) (leading message : Text) :
    AttributePath.split (errorForm s leading message).content =
      ([.word [] "doc"], .mark [' '] '=' false :: (invocationTokens s [' '] ++
        [.enclosed .paren ⟨[.atom [] .nowhere (.literal (Text.Quoted.encode message))], []⟩])) := by
  simp [errorForm, invocationTokens, Form.content, Token.enclosed, Token.children,
    AttributePath.split, AttributePath.spanSegments, AttributePath.isSeparator, Token.word,
    Token.mark, Token.isIdent, Token.ident?, Token.isJoint]

theorem name_error (s : Settings) (leading message : Text) :
    (errorForm s leading message).name = "doc" := by
  show AttributePath.name (AttributePath.split (errorForm s leading message).content).1 = _
  rw [split_error]
  rfl

end Embed

end CondAttrs
