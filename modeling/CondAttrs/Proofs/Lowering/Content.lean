import CondAttrs.Attribute.Lower
import CondAttrs.Proofs.Lexical.Excerpt
import CondAttrs.Settings.Load

/-!
# The tokens of lowered attributes

Lowering writes text. Here the same is written as tokens: for every text that lowering
puts together, the token list that is read back from it. A content is followed by a comma
or by a bracket, which its last token records, so a content is a function of the
character that follows.

A content may be empty. Then the space in front of it belongs to what comes next, the
following comma or the closing bracket; `TokenStream.prepend` finds the place.

## Main definitions

* `Inset`, `Inset.Fluent`: tokens that run in front of every seam.
* `Arguments.stream`: the tokens of `conditionalArguments`.
* `Attribute.contentTokens`: the tokens of `Attribute.content`.
* `Attribute.Genuine`: the parts of the attribute can be quoted.

## Main statements

* `Arguments.inside_stream`, `Arguments.render_stream`: the tokens of arguments run, and
  their text is what is written.
* `Attribute.Genuine.fluent`: the same for the tokens of a content.
-/

namespace CondAttrs

open Trivia (Closed)

/-! ## Fluent contents -/

/-- Tokens that depend on the character behind them. -/
abbrev Inset := Char → List Token

/-- The tokens run in front of every seam, with the same text. -/
structure Inset.Fluent (c : Inset) : Prop where
  runs : ∀ {d : Char}, isSeam d = true → ∀ rest, Runs (Token.signsAll (c d)) (d :: rest)
  text : ∀ d, Token.renderAll (c d) = Token.renderAll (c ',')

theorem Token.rejoinLast_cons (c : Char) (rest : Text) (ts : List Token) :
    rejoinLast (c :: rest) ts = rejoinLast [c] ts := by
  have hrejoin : ∀ t : Token, t.rejoin (c :: rest) = t.rejoin [c] := by
    intro t
    cases t with
    | atom leading pos a => cases a <;> rfl
    | group => rfl
  fun_induction rejoinLast [c] ts with
  | case1 => rfl
  | case2 t => rw [rejoinLast, hrejoin]
  | case3 t u more ih => rw [rejoinLast, ih]

/-- What can be quoted is fluent. -/
theorem Token.Quotable.fluent {ts : List Token} (h : Quotable ts) :
    Inset.Fluent fun d => excerpt [d] ts where
  runs {d} hd rest := by
    have hruns := h.runs_excerpt hd rest
    rwa [excerpt, rejoinLast_cons, ← excerpt] at hruns
  text d := by rw [h.render_excerpt, h.render_excerpt]

/-! ## Tokens between brackets -/

/-- The stream runs in front of `rest`. -/
def TokenStream.Inside (st : TokenStream) (rest : Text) : Prop :=
  CondAttrs.Runs (Token.signsAll st.tokens) (st.trailing ++ rest) ∧ Closed st.trailing

theorem TokenStream.Inside.space {st : TokenStream} {rest : Text} (h : st.Inside rest) :
    (st.prepend [' ']).Inside rest := by
  obtain ⟨_ | ⟨t, ts⟩, trailing⟩ := st
  · exact ⟨trivial, h.2.cons_blank (by decide)⟩
  · obtain ⟨hruns, hclosed⟩ := h
    refine ⟨?_, hclosed⟩
    simp only [Token.signsAll] at hruns
    rw [Token.signs_eq_cons] at hruns
    simp only [prepend, Token.signsAll]
    rw [Token.signs_withLeading]
    exact hruns.withLeading (hruns.1.cons_blank (by decide))

namespace Token

/-- A group right behind what is in front of it. -/
def enclosed (d : Delimiter) (inside : TokenStream) : Token :=
  .group [] .nowhere d inside.tokens inside.trailing

theorem runs_enclosed {d : Delimiter} {inside : TokenStream} {rest : Text}
    (h : inside.Inside (d.closing :: rest)) : Runs (enclosed d inside).signs rest := by
  refine ⟨Trivia.closed_nil, Glyph.fits_opening d _, runs_append.2 ⟨?_, h.2, ?_, trivial⟩⟩
  · simpa [Sign.textAll, Sign.text, Glyph.text] using h.1
  · exact Glyph.fits_closing d _

theorem render_enclosed (d : Delimiter) (inside : TokenStream) :
    (enclosed d inside).render = d.opening :: (inside.render ++ [d.closing]) := by
  simp [enclosed, render, TokenStream.render]

/-- A punctuation character. -/
def mark (leading : Text) (c : Char) (joint : Bool) : Token :=
  .atom leading .nowhere (.punct c joint)

/-- A word. -/
def word (leading name : Text) : Token :=
  .atom leading .nowhere (.ident name)

theorem render_mark (leading : Text) (c : Char) (joint : Bool) :
    (mark leading c joint).render = leading ++ [c] := by
  rw [mark, render]
  rfl

theorem render_word (leading name : Text) : (word leading name).render = leading ++ name := by
  rw [word, render]
  rfl

theorem runs_mark {leading rest : Text} {c : Char} {joint : Bool} {ts : List Token}
    (hl : Closed leading) (hc : isPunctuation c = true ∧ c ≠ '/')
    (hjoint : (renderAll ts ++ rest).head?.any isPunctuation = joint)
    (h : Runs (signsAll ts) rest) : Runs (signsAll (mark leading c joint :: ts)) rest := by
  show Runs (⟨leading, .atom (.punct c joint)⟩ :: signsAll ts) rest
  refine ⟨hl, ?_, h⟩
  rw [← hjoint, textAll_signsAll]
  exact Glyph.fits_punct hc.1 hc.2

end Token

/-! ## Arguments -/

namespace Arguments

/-- The comma behind the condition, and behind a content that is not the last. -/
def comma : Token :=
  .mark [] ',' false

/-- What follows the comma behind the condition. -/
def tail : List Inset → TokenStream
  | [] => ⟨[], []⟩
  | [c] => TokenStream.prepend [' '] ⟨c ')', []⟩
  | c :: d :: more =>
    TokenStream.prepend [' '] ⟨c ',' ++ comma :: (tail (d :: more)).tokens, (tail (d :: more)).trailing⟩

/-- The arguments of a conditional attribute. -/
def stream (condition : List Token) (contents : List Inset) : TokenStream :=
  ⟨Token.excerpt [','] condition ++ comma :: (tail contents).tokens, (tail contents).trailing⟩

/-- The text of a content. -/
def text (c : Inset) : Text :=
  Token.renderAll (c ',')

theorem render_tail {contents : List Inset} (hne : contents ≠ [])
    (h : ∀ c ∈ contents, c.Fluent) :
    (tail contents).render = ' ' :: Text.join ", " (contents.map text) := by
  fun_induction tail contents with
  | case1 => exact absurd rfl hne
  | case2 c =>
    rw [TokenStream.render_prepend, TokenStream.render, List.append_nil, (h c (by simp)).text]
    rfl
  | case3 c d more ih =>
    have ih := ih (List.cons_ne_nil d more) fun x hx => h x (by simp [hx])
    have hrest : Token.renderAll (tail (d :: more)).tokens ++ (tail (d :: more)).trailing =
        ' ' :: Text.join ", " ((d :: more).map text) := ih
    rw [TokenStream.render_prepend, TokenStream.render, Token.renderAll_append, Token.renderAll,
      List.append_assoc, List.append_assoc, hrest]
    simp [Text.join, text, comma, Token.mark, Token.render, Atom.text]

/-- The text of the arguments. -/
theorem render_stream {condition : List Token} {contents : List Inset}
    (hcondition : Token.Quotable condition) (h : ∀ c ∈ contents, c.Fluent) :
    (stream condition contents).render =
      conditionalArguments (Text.strip (Token.renderAll condition)) (contents.map text) := by
  have hcomma : comma.render = [','] := rfl
  have hsplit : (stream condition contents).render =
      Text.strip (Token.renderAll condition) ++ ',' :: (tail contents).render := by
    rw [stream, TokenStream.render, Token.renderAll_append, Token.renderAll, hcomma,
      hcondition.render_excerpt, TokenStream.render]
    simp
  rw [hsplit]
  cases contents with
  | nil => rfl
  | cons c more =>
    rw [render_tail (List.cons_ne_nil c more) h]
    simp [conditionalArguments, Text.join]

section

variable {contents : List Inset} {after : Text}

theorem head_tail (h : ∀ c ∈ contents, c.Fluent) (hafter : after.head?.any isPunctuation = false) :
    ((tail contents).render ++ after).head?.any isPunctuation = false := by
  cases contents with
  | nil => exact hafter
  | cons c more =>
    rw [render_tail (List.cons_ne_nil c more) h, List.cons_append]
    rfl

theorem runs_comma (h : ∀ c ∈ contents, c.Fluent) (hafter : after.head?.any isPunctuation = false)
    (htail : (tail contents).Inside after) :
    Runs (Token.signsAll (comma :: (tail contents).tokens)) ((tail contents).trailing ++ after) := by
  refine Token.runs_mark Trivia.closed_nil (by decide) ?_ htail.1
  rw [← List.append_assoc]
  exact head_tail h hafter

/-- What follows the comma runs in front of any text in front of which the last content
does. -/
theorem inside_tail (h : ∀ c ∈ contents, c.Fluent)
    (hafter : after.head?.any isPunctuation = false)
    (hlast : ∀ c ∈ contents.getLast?, Runs (Token.signsAll (c ')')) after) :
    (tail contents).Inside after := by
  fun_induction tail contents with
  | case1 => exact ⟨trivial, Trivia.closed_nil⟩
  | case2 c => exact .space ⟨hlast c rfl, Trivia.closed_nil⟩
  | case3 c d more ih =>
    have hmore : ∀ x ∈ d :: more, Inset.Fluent x := fun x hx => h x (by simp [hx])
    have htail := ih hmore fun x hx => hlast x (by rw [List.getLast?_cons_cons]; exact hx)
    refine .space ⟨?_, htail.2⟩
    rw [Token.signsAll_append, runs_append]
    have hcomma := runs_comma hmore hafter htail
    refine ⟨?_, hcomma⟩
    have hc := (h c (by simp)).runs (d := ',') (by decide)
    rw [Token.textAll_signsAll, Token.renderAll]
    exact hc _

/-- The arguments run in front of any text in front of which the last content does. -/
theorem inside_stream {condition : List Token} (hcondition : Token.Quotable condition)
    (h : ∀ c ∈ contents, c.Fluent) (hafter : after.head?.any isPunctuation = false)
    (hlast : ∀ c ∈ contents.getLast?, Runs (Token.signsAll (c ')')) after) :
    (stream condition contents).Inside after := by
  have htail := inside_tail h hafter hlast
  refine ⟨?_, htail.2⟩
  show Runs (Token.signsAll (Token.excerpt [','] condition ++ comma :: (tail contents).tokens)) _
  rw [Token.signsAll_append, runs_append]
  refine ⟨?_, runs_comma h hafter htail⟩
  rw [Token.textAll_signsAll, Token.renderAll]
  exact hcondition.fluent.runs (d := ',') (by decide) _

end

/-- In particular they run in front of the closing parenthesis. -/
theorem inside_paren {condition : List Token} {contents : List Inset}
    (hcondition : Token.Quotable condition) (h : ∀ c ∈ contents, c.Fluent) (rest : Text) :
    (stream condition contents).Inside (')' :: rest) :=
  inside_stream hcondition h rfl fun c hc =>
    (h c (List.mem_of_getLast? hc)).runs (d := ')') (by decide) rest

end Arguments

/-! ## Names -/

namespace Settings

/-- Whether a text is an identifier of plain letters. -/
def isIdentifier : Text → Bool
  | [] => false
  | c :: rest => isNameStart c && rest.all isNamePart

theorem isWordStart_of_isNameStart {c : Char} (h : isNameStart c = true) :
    isWordStart c = true := by
  have hz : 'z'.toNat = 122 := rfl
  have hZ : 'Z'.toNat = 90 := rfl
  simp only [isNameStart, Bool.or_eq_true, Bool.and_eq_true, decide_eq_true_eq] at h
  rcases h with (⟨ha, hb⟩ | ⟨ha, hb⟩) | rfl
  · have : c.toNat < 0x80 := by have : c.toNat ≤ 'z'.toNat := hb; omega
    rw [isWordStart, Text.isLetter, if_pos this, Bool.or_eq_true, Bool.or_eq_true]
    exact .inl (.inl (by simp only [Text.within, ha, hb, decide_true, Bool.and_self]))
  · have : c.toNat < 0x80 := by have : c.toNat ≤ 'Z'.toNat := hb; omega
    rw [isWordStart, Text.isLetter, if_pos this, Bool.or_eq_true, Bool.or_eq_true]
    exact .inl (.inr (by simp only [Text.within, ha, hb, decide_true, Bool.and_self]))
  · decide

theorem isWordPart_of_isNamePart {c : Char} (h : isNamePart c = true) : isWordPart c = true := by
  have h9 : '9'.toNat = 57 := rfl
  simp only [isNamePart, Bool.or_eq_true, Bool.and_eq_true, decide_eq_true_eq] at h
  rcases h with h | ⟨ha, hb⟩
  · exact isWordPart_of_isWordStart (isWordStart_of_isNameStart h)
  · have : c.toNat < 0x80 := by have : c.toNat ≤ '9'.toNat := hb; omega
    refine isWordPart_of_isDigit ?_
    rw [Text.isDigit, if_pos this]
    simp only [Text.within, ha, hb, decide_true, Bool.and_self]

end Settings

theorem Token.runs_ident {leading name rest : Text} {ts : List Token} (hl : Closed leading)
    (hname : (Glyph.atom (.ident name)).Fits [])
    (hhead : (renderAll ts ++ rest).head?.any isSeam = true) (h : Runs (signsAll ts) rest) :
    Runs (signsAll (word leading name :: ts)) rest := by
  show Runs (⟨leading, .atom (.ident name)⟩ :: signsAll ts) rest
  refine ⟨hl, ?_, h⟩
  rw [textAll_signsAll]
  cases hrest : renderAll ts ++ rest with
  | nil => rw [hrest] at hhead; cases hhead
  | cons d more =>
    rw [hrest] at hhead
    exact hname.echo rfl (.seam hhead) (by simp)

theorem Settings.fits_of_isIdentifier {name : Text} (h : isIdentifier name = true) :
    (Glyph.atom (.ident name)).Fits [] := by
  cases name with
  | nil => cases h
  | cons c w =>
    simp only [isIdentifier, Bool.and_eq_true, List.all_eq_true] at h
    exact Glyph.fits_word (isWordStart_of_isNameStart h.1)
      (fun x hx => isWordPart_of_isNamePart (h.2 x hx)) rfl

theorem Token.runs_word {leading name rest : Text} {ts : List Token} (hl : Closed leading)
    (hname : Settings.isIdentifier name = true)
    (hhead : (renderAll ts ++ rest).head?.any isSeam = true) (h : Runs (signsAll ts) rest) :
    Runs (signsAll (word leading name :: ts)) rest :=
  runs_ident hl (Settings.fits_of_isIdentifier hname) hhead h

/-! ## Contents of attributes -/

/-- The content of a documentation comment. -/
def docTokens (value : Text) : List Token :=
  [.word [] "doc", .mark [' '] '=' false, .atom [' '] .nowhere (.literal (Text.Quoted.encode value))]

/-- What stands between the brackets when the annotation is written as an attribute. -/
def Form.contentTokens : Form → Inset
  | .doc _ _ _ value, _ => docTokens value
  | f, follow => Token.excerpt [follow] f.content

/-- A content as a full attribute. -/
def bracketedTokens (c : Inset) : Inset := fun _ =>
  [.mark [] '#' false, .enclosed .bracket ⟨c ']', []⟩]

/-- A directive written again, from its arguments. -/
def deferredTokens (form : Form) (arguments : TokenStream) : List Token :=
  Token.excerpt ['('] form.path ++ [.enclosed .paren arguments]

mutual

/-- What stands between the brackets when the attribute is written in full. -/
def Attribute.contentTokens : Attribute → Inset
  | .plain form => form.contentTokens
  | .directive form ⟨condition, _, _, attributes⟩ => fun _ =>
    deferredTokens form
      (Arguments.stream condition ((Attribute.contentTokensAll attributes).map bracketedTokens))

/-- The contents of the attributes of a list. -/
def Attribute.contentTokensAll : List Attribute → List Inset
  | [] => []
  | attr :: rest => attr.contentTokens :: Attribute.contentTokensAll rest

end

theorem Attribute.contentTokensAll_eq_map (attributes : List Attribute) :
    Attribute.contentTokensAll attributes = attributes.map Attribute.contentTokens := by
  induction attributes with
  | nil => simp [Attribute.contentTokensAll]
  | cons attr rest ih => simp [Attribute.contentTokensAll, ih]

/-- The tokens can be the condition of a directive. -/
structure Token.IsCondition (ts : List Token) : Prop where
  quotable : Quotable ts
  ne_nil : ts ≠ []
  comma : ∀ t ∈ ts, t.isPunct ',' = false

mutual

/-- The parts of the attribute can be quoted, and it is a directive exactly if it has the
directive's name. A bare attribute has no comma. -/
def Attribute.Genuine (s : Settings) : Attribute → Prop
  | .plain form =>
    form.isDoc = true ∨ (form.name ≠ s.directive ∧ Token.Quotable form.content) ∧
      (form.isBare = true → ∀ t ∈ form.content, t.isPunct ',' = false)
  | .directive form ⟨condition, _, _, attributes⟩ =>
    (form.isDoc = false ∧ form.name = s.directive ∧ Token.Quotable form.path) ∧
      Token.IsCondition condition ∧ Attribute.GenuineAll s attributes

/-- The attributes of a list are genuine. -/
def Attribute.GenuineAll (s : Settings) : List Attribute → Prop
  | [] => True
  | attr :: rest => attr.Genuine s ∧ Attribute.GenuineAll s rest

end

theorem Attribute.genuineAll_iff {s : Settings} {attributes : List Attribute} :
    Attribute.GenuineAll s attributes ↔ ∀ a ∈ attributes, a.Genuine s := by
  induction attributes with
  | nil => simp [Attribute.GenuineAll]
  | cons attr rest ih => simp [Attribute.GenuineAll, ih]

theorem fluent_doc (value : Text) : Inset.Fluent fun _ => docTokens value where
  runs {d} hd rest := by
    refine Token.runs_word Trivia.closed_nil (by decide) rfl ?_
    refine Token.runs_mark Trivia.closed_space (by decide) rfl ?_
    exact ⟨Trivia.closed_space, Glyph.fits_encode value hd, trivial⟩
  text _ := rfl

theorem render_docTokens (value : Text) :
    Token.renderAll (docTokens value) = "doc = " ++ Text.Quoted.encode value := by
  simp [docTokens, Token.renderAll, Token.render, Token.word, Token.mark, Atom.text]

theorem Form.fluent {f : Form} (h : f.isDoc = true ∨ Token.Quotable f.content) :
    Inset.Fluent f.contentTokens := by
  cases f with
  | doc leading pos marker value => exact fluent_doc value
  | marked hash bang bracket => exact (h.resolve_left (by simp [isDoc])).fluent
  | bare first rest => exact (h.resolve_left (by simp [isDoc])).fluent

theorem Form.render_contentTokens {f : Form} (h : f.isDoc = true ∨ Token.Quotable f.content)
    (d : Char) : Token.renderAll (f.contentTokens d) = f.contentText := by
  cases f with
  | doc leading pos marker value => exact render_docTokens value
  | marked hash bang bracket => exact (h.resolve_left (by simp [isDoc])).render_excerpt _
  | bare first rest => exact (h.resolve_left (by simp [isDoc])).render_excerpt _

/-- Brackets run in front of anything. -/
theorem runs_bracketed {c : Inset} (h : c.Fluent) (d : Char) (rest : Text) :
    Runs (Token.signsAll (bracketedTokens c d)) rest := by
  refine Token.runs_mark Trivia.closed_nil (by decide) rfl ?_
  rw [Token.signsAll_singleton]
  exact Token.runs_enclosed ⟨h.runs (d := ']') (by decide) _, Trivia.closed_nil⟩

theorem fluent_bracketed {c : Inset} (h : c.Fluent) : (bracketedTokens c).Fluent where
  runs _ rest := runs_bracketed h _ (_ :: rest)
  text _ := rfl

theorem text_bracketed {c : Inset} (h : c.Fluent) :
    Arguments.text (bracketedTokens c) = bracketed (Arguments.text c) := by
  simp [Arguments.text, bracketedTokens, bracketed, Token.renderAll, Token.mark, Token.render,
    Atom.text, Token.enclosed, h.text ']', Delimiter.opening, Delimiter.closing]

theorem fluent_bracketedAll {contents : List Inset} (h : ∀ c ∈ contents, c.Fluent) :
    ∀ c ∈ contents.map bracketedTokens, c.Fluent := by
  intro c hc
  obtain ⟨c, hc', rfl⟩ := List.mem_map.1 hc
  exact fluent_bracketed (h c hc')

theorem text_bracketedAll {contents : List Inset} (h : ∀ c ∈ contents, c.Fluent) :
    (contents.map bracketedTokens).map Arguments.text =
      (contents.map Arguments.text).map bracketed := by
  rw [List.map_map, List.map_map]
  exact List.map_congr_left fun c hc => text_bracketed (h c hc)

/-- The arguments of a directive that is written again. -/
theorem fluent_deferred {form : Form} {arguments : TokenStream} (hpath : Token.Quotable form.path)
    (h : ∀ rest, arguments.Inside (')' :: rest)) :
    Inset.Fluent fun _ => deferredTokens form arguments where
  runs {d} hd rest := by
    rw [deferredTokens, Token.signsAll_append, runs_append, Token.signsAll_singleton]
    refine ⟨?_, Token.runs_enclosed (h _)⟩
    rw [Token.textAll_signs, Token.render_enclosed]
    exact hpath.fluent.runs (d := '(') (by decide) _
  text _ := rfl

mutual

/-- The content of a genuine attribute runs, and its text is the content. -/
theorem Attribute.Genuine.fluent {s : Settings} : ∀ {a : Attribute}, a.Genuine s →
    Inset.Fluent a.contentTokens ∧ Arguments.text a.contentTokens = a.content
  | .plain form, h => by
    have hform : form.isDoc = true ∨ Token.Quotable form.content := by
      rcases h with h | h
      · exact .inl h
      · exact .inr h.1.2
    exact ⟨Form.fluent hform, Form.render_contentTokens hform _⟩
  | .directive form ⟨condition, separator, braced, attributes⟩, h => by
    obtain ⟨⟨-, -, hpath⟩, hcondition, hattributes⟩ := h
    obtain ⟨hfluent, htext⟩ := Attribute.GenuineAll.fluent hattributes
    have hbracketed := fluent_bracketedAll hfluent
    refine ⟨fluent_deferred hpath fun rest =>
      Arguments.inside_paren hcondition.quotable hbracketed rest, ?_⟩
    have hstream := Arguments.render_stream hcondition.quotable hbracketed
    rw [text_bracketedAll hfluent, htext] at hstream
    rw [Arguments.text, Attribute.contentTokens, deferredTokens, Token.renderAll_append,
      hpath.render_excerpt, Token.renderAll, Token.render_enclosed, hstream]
    simp [Token.renderAll, Attribute.content, deferredText, Form.pathText, Delimiter.opening, Delimiter.closing]

theorem Attribute.GenuineAll.fluent {s : Settings} : ∀ {attributes : List Attribute},
    Attribute.GenuineAll s attributes →
      (∀ c ∈ Attribute.contentTokensAll attributes, Inset.Fluent c) ∧
        (Attribute.contentTokensAll attributes).map Arguments.text =
          Attribute.contents attributes
  | [], _ => by simp [Attribute.contentTokensAll, Attribute.contents]
  | attr :: rest, h => by
    obtain ⟨hf, ht⟩ := Attribute.Genuine.fluent h.1
    obtain ⟨hfs, hts⟩ := Attribute.GenuineAll.fluent h.2
    simp only [Attribute.contentTokensAll, List.forall_mem_cons, List.map_cons, hts, ht,
      Attribute.contents]
    exact ⟨⟨hf, hfs⟩, trivial⟩

end

end CondAttrs
