import CondAttrs.Proofs.Escape
import CondAttrs.Proofs.Lowering.Replacement
import CondAttrs.Proofs.Reading.Accept
import CondAttrs.Proofs.Settings

/-!
# Messages inside the output

A message that is carried into the output may hold anything: quotes, brackets, the ends of comments,
line feeds. Between the quotes of a literal none of it counts. The lexer skips one character behind
each backslash, and the escapes are written such that it never skips the quote that ends the literal
and never meets another one before. So a quoted text is one literal in front of anything that cannot
go on with it, and what is written around the message is read as it was meant.

## Main definitions

* `Embed.itemTokens`: the item that fails with a message.

## Main statements

* `tokenize_encode`: a quoted text is one literal.
* `ReadsAsName.fits`: a name that is an identifier on its own is one wherever it ends.
* `Embed.message_confined`: no message gets out of the attribute or the item that carries it.
-/

namespace CondAttrs

theorem tokenize_encode (v : Text) :
    tokenize (Text.Quoted.encode v) =
      .ok ⟨[.atom [] .start (.literal (Text.Quoted.encode v))], []⟩ := by
  have htokenize := tokenize_atom (Glyph.fits_encode_nil v)
    (show ('"' :: _).head? ≠ some '#' by simp) Trivia.final_nil
  rwa [List.append_nil] at htokenize

/-- What is an identifier on its own fits at the end of a text. -/
theorem ReadsAsName.fits {name : Text} (h : ReadsAsName name) :
    (Glyph.atom (.ident name)).Fits [] := by
  obtain ⟨line, ⟨_ | ⟨t, rest⟩, trailing⟩, -, hruns, hstream⟩ := tokenize_runs h
  · cases hstream
  · simp only [TokenStream.prepend, TokenStream.mk.injEq, List.cons.injEq] at hstream
    obtain ⟨⟨htoken, rfl⟩, rfl⟩ := hstream
    cases t with
    | group => cases htoken
    | atom leading pos a =>
      simp only [Token.withLeading, Token.atom.injEq] at htoken
      obtain ⟨-, -, rfl⟩ := htoken
      exact hruns.1.2.1

namespace Embed

/-- The item that fails with a message. -/
def itemTokens (s : Settings) (message : Text) : List Token :=
  invocationTokens s [] ++
    [.group [' '] .nowhere .brace
      [.atom [' '] .nowhere (.literal (Text.Quoted.encode message))] [' ']]

theorem render_item (s : Settings) (message : Text) :
    Token.renderAll (itemTokens s message) = itemText s message := by
  unfold itemText invocation
  simp [itemTokens, invocationTokens, Token.renderAll, Token.render, Token.mark, Token.word,
    Atom.text, Delimiter.opening, Delimiter.closing]

/-- The item runs in front of anything. -/
theorem runs_item {s : Settings} (hname : (Glyph.atom (.ident s.errorName)).Fits [])
    (message rest : Text) : Runs (Token.signsAll (itemTokens s message)) rest := by
  refine runs_invocation hname Trivia.closed_nil rfl ?_
  rw [Token.signsAll_singleton]
  refine ⟨Trivia.closed_space, Glyph.fits_opening .brace _, Trivia.closed_space, ?_, ?_⟩
  · exact Glyph.fits_encode message (by decide)
  · exact ⟨Trivia.closed_space, Glyph.fits_closing .brace _, trivial⟩

theorem tokenize_attributeText {s : Settings} (hname : (Glyph.atom (.ident s.errorName)).Fits [])
    (message : Text) :
    ∃ stream form, tokenize (attributeText s [] message) = .ok stream ∧ stream.trailing = [] ∧
      Form.readAll stream.tokens = ([form], []) ∧
      form.forget = (errorForm s [] message).forget := by
  obtain ⟨stream, htokenize, htrailing, hforget⟩ :=
    tokenize_of_signs (runs_error hname message []) fun more hmore => by
      simp [render_error, attributeText] at hmore
  rw [render_error] at htokenize
  obtain ⟨form, hproper, htokens, hform⟩ :=
    Form.exists_of_forgetAll (.inr (isAttribute_error s [] message)) hforget
  refine ⟨stream, form, htokenize, htrailing, ?_, hform⟩
  have hread := @Form.readAll_of_proper [form] [] (by simpa using hproper) rfl
  rwa [List.flatMap_singleton, List.append_nil, htokens] at hread

theorem tokenize_itemText {s : Settings} (hname : (Glyph.atom (.ident s.errorName)).Fits [])
    (message : Text) :
    ∃ stream, tokenize (itemText s message) = .ok stream ∧ stream.trailing = [] ∧
      Token.forgetAll stream.tokens = Token.forgetAll (itemTokens s message) := by
  rw [← render_item]
  refine tokenize_of_signs (runs_item hname message []) fun more hmore => ?_
  have hhead : (Token.renderAll (itemTokens s message)).head? = some ':' := rfl
  rw [hmore, List.head?_cons] at hhead
  exact absurd hhead (by decide)

/-- No text gets out of its quotes, and no message out of what carries it. A quoted text is one
literal, with nothing around it, and the escapes between its quotes give back the text. The
attribute with a message is read as one outer attribute `#[doc = ::core::name!("..")]`, the item as
`::core::name! { ".." }`, and the literal in either is the quoted message. -/
theorem message_confined :
    (∀ v : Text,
      tokenize (Text.Quoted.encode v) =
        .ok ⟨[.atom [] .start (.literal (Text.Quoted.encode v))], []⟩ ∧
      ∃ body, Text.Quoted.encode v = '"' :: (body ++ ['"']) ∧
        body = Text.Quoted.escapes.foldl (fun t e => Text.replaceAll [e.1] e.2 t) v ∧
        Text.Quoted.decodeBody body = some v) ∧
    ∀ (s : Settings) (message : Text), ReadsAsName s.errorName →
      (∃ stream form, tokenize (attributeText s [] message) = .ok stream ∧ stream.trailing = [] ∧
        Form.readAll stream.tokens = ([form], []) ∧ form.leading = [] ∧ form.isInner = false ∧
        Token.forgetAll form.path = [.word [] "doc"] ∧
        Token.forgetAll form.arguments =
          .mark [' '] '=' false :: (invocationTokens s [' '] ++
            [.group [] .nowhere .paren
              [.atom [] .nowhere (.literal (Text.Quoted.encode message))] []])) ∧
      ∃ stream, tokenize (itemText s message) = .ok stream ∧ stream.trailing = [] ∧
        Token.forgetAll stream.tokens =
          invocationTokens s [] ++
            [.group [' '] .nowhere .brace
              [.atom [' '] .nowhere (.literal (Text.Quoted.encode message))] [' ']] := by
  refine ⟨fun v => ⟨tokenize_encode v, Text.Quoted.encodeBody v, rfl,
    Text.Quoted.encodeBody_eq_foldl v, Text.Quoted.decodeBody_encodeBody v⟩,
    fun s message hname => ⟨?_, ?_⟩⟩
  · obtain ⟨stream, form, htokenize, htrailing, hread, hform⟩ :=
      tokenize_attributeText hname.fits message
    refine ⟨stream, form, htokenize, htrailing, hread, ?_, ?_, ?_, ?_⟩
    · rw [← Form.leading_forget, hform]
      rfl
    · rw [← Form.isInner_forget, hform]
      rfl
    · rw [← Form.path_forget, hform, Form.path_forget, Form.path, split_error]
      rfl
    · rw [← Form.arguments_forget, hform, Form.arguments_forget, Form.arguments, split_error]
      rfl
  · obtain ⟨stream, htokenize, htrailing, hforget⟩ := tokenize_itemText hname.fits message
    exact ⟨stream, htokenize, htrailing, hforget⟩

/-- A message with all that could close the literal, the attribute or the line. -/
theorem message_confined_closing :
    ReadsAsName ({} : Settings).errorName ∧
      ∃ stream form, tokenize (attributeText {} [] "\\\")]\n/* \x7b") = .ok stream ∧
        stream.trailing = [] ∧ Form.readAll stream.tokens = ([form], []) ∧
        form.isInner = false ∧ Token.forgetAll form.path = [.word [] "doc"] := by
  have hname : ReadsAsName ({} : Settings).errorName :=
    (Settings.readsAsName_iff (by decide)).1.2 (by decide)
  obtain ⟨stream, form, htokenize, htrailing, hread, -, hinner, hpath, -⟩ :=
    (message_confined.2 {} "\\\")]\n/* \x7b" hname).1
  exact ⟨hname, stream, form, htokenize, htrailing, hread, hinner, hpath⟩

end Embed

end CondAttrs
