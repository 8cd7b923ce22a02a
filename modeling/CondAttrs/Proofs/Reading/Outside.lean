import CondAttrs.Proofs.Lexical.Interval
import CondAttrs.Proofs.Lexical.Quotation
import CondAttrs.Proofs.Lowering.Native

/-!
# Annotations and the text around them

A text is divided into trivia and tokens, and the two are never confused: what is trivia has the
form of trivia, no token starts like it, and comments of documentation and literals are tokens as a
whole. An annotation starts with a token. So a hash inside a comment, a string or a raw string
opens no attribute, and what looks like documentation inside a string is none.

## Main definitions

* `TokenStream.HasAt`, `TokenStream.Covers`: the offsets where tokens start, and all others.
* `Form.ReadIn`, `Form.Opens`: the annotations of a token list, and how they start.

## Main statements

* `TokenStream.HasAt.not_covers`: an offset is not both.
* `tokenize_sets_apart`: trivia, tokens and annotations of every text that can be read.
-/

namespace CondAttrs

open Sign (textAll)
open Token (signsAll renderAll)

/-! ## Trivia -/

/-- The trivia at the start of a text may follow an interpreter line. -/
theorem Trivia.Plain.between {line trivia rest : Text} (h : Plain rest trivia)
    (hline : line = [] ∨ IsShebang line (trivia ++ rest)) : Between [] (line ++ trivia) rest := by
  rcases hline with rfl | hline
  · exact .inl h
  · exact .inr ⟨rfl, line, trivia, rfl, hline, h⟩

theorem Runs.of_split {signs second : List Sign} {s : Sign} {rest : Text} (first : List Sign)
    (h : Runs signs rest) (hs : signs = first ++ s :: second) :
    Trivia.Closed s.leading ∧ s.glyph.Fits (textAll second ++ rest) := by
  subst hs
  obtain ⟨-, hclosed, hfits, -⟩ := runs_append.1 h
  exact ⟨hclosed, hfits⟩

/-- The signs of a stream behind an interpreter line. -/
theorem TokenStream.prepend_signs (line : Text) (source : TokenStream) :
    (source.tokens = [] ∧ source.prepend line = ⟨[], line ++ source.trailing⟩) ∨
      ∃ s more, signsAll source.tokens = s :: more ∧
        signsAll (source.prepend line).tokens = ⟨line ++ s.leading, s.glyph⟩ :: more ∧
        (source.prepend line).trailing = source.trailing := by
  obtain ⟨_ | ⟨t, rest⟩, trailing⟩ := source
  · exact .inl ⟨rfl, rfl⟩
  · refine .inr ⟨⟨t.leading, t.opener⟩, t.signs.tail ++ signsAll rest, ?_, ?_, rfl⟩
    · rw [Token.signsAll, Token.signs_eq_cons t]
      rfl
    · rw [prepend, Token.signsAll, Token.signs_withLeading]
      rfl

/-- The trivia in front of every token, and every token. -/
theorem apart_of_tokenize {t : Text} {stream : TokenStream} (h : tokenize t = .ok stream)
    {first second : List Sign} {s : Sign} (hs : signsAll stream.tokens = first ++ s :: second) :
    Trivia.Between (textAll first) s.leading (s.glyph.text ++ (textAll second ++ stream.trailing)) ∧
      s.glyph.Apart (textAll second ++ stream.trailing) := by
  obtain ⟨line, source, hline, ⟨hruns, -⟩, rfl⟩ := tokenize_runs h
  have hshebang := Trivia.isShebang_of_readShebang hline
  rcases source.prepend_signs line with ⟨-, hempty⟩ | ⟨s₀, more, hsource, hsigns, htrailing⟩
  · rw [hempty] at hs
    simp [signsAll] at hs
  rw [hsigns] at hs
  rw [htrailing]
  rw [source.render_eq_textAll, hsource] at hshebang
  -- the interpreter line stands in front of the first sign, and of no other one
  cases first with
  | nil =>
    obtain ⟨rfl, rfl⟩ := List.cons.inj hs
    obtain ⟨hclosed, hfits⟩ := hruns.of_split [] hsource
    refine ⟨(hclosed.plain hfits.stops).between ?_, hfits.apart⟩
    simpa [Sign.textAll, Sign.text] using hshebang
  | cons _ first =>
    obtain ⟨-, rfl⟩ := List.cons.inj hs
    obtain ⟨hclosed, hfits⟩ := hruns.of_split (s₀ :: first) hsource
    exact ⟨.inl (hclosed.plain hfits.stops), hfits.apart⟩

/-- The trivia at the end. -/
theorem between_trailing_of_tokenize {t : Text} {stream : TokenStream}
    (h : tokenize t = .ok stream) :
    Trivia.Between (renderAll stream.tokens) stream.trailing [] := by
  obtain ⟨line, source, hline, ⟨-, hfinal⟩, rfl⟩ := tokenize_runs h
  have hshebang := Trivia.isShebang_of_readShebang hline
  rcases source.prepend_signs line with ⟨hnone, hempty⟩ | ⟨s₀, more, -, -, htrailing⟩
  · rw [hempty]
    refine hfinal.plain.between ?_
    simpa [TokenStream.render, hnone, Token.renderAll] using hshebang
  · rw [htrailing]
    exact .inl hfinal.plain

/-! ## Offsets -/

namespace TokenStream

/-- The glyph `g` starts at the offset `k`. -/
def HasAt (stream : TokenStream) (k : Nat) (g : Glyph) : Prop :=
  ∃ first s second, signsAll stream.tokens = first ++ s :: second ∧ s.glyph = g ∧
    k = (textAll first ++ s.leading).length

/-- The offset `k` lies in trivia, or in a token behind its first character. -/
inductive Covers (stream : TokenStream) (k : Nat) : Prop where
  | trivia {first second : List Sign} {s : Sign}
      (hs : signsAll stream.tokens = first ++ s :: second) (hlow : (textAll first).length ≤ k)
      (hhigh : k < (textAll first ++ s.leading).length)
  | token {first second : List Sign} {s : Sign}
      (hs : signsAll stream.tokens = first ++ s :: second)
      (hlow : (textAll first ++ s.leading).length < k)
      (hhigh : k < (textAll first ++ s.text).length)
  | trailing (hlow : (renderAll stream.tokens).length ≤ k)

/-- Of two signs of a list one is the other, or one stands in front of the other. -/
theorem split_cases {first second first' second' : List Sign} {s s' : Sign}
    (h : first ++ s :: second = first' ++ s' :: second') :
    (first = first' ∧ s = s') ∨ (∃ mid, first' = first ++ s :: mid) ∨
      ∃ mid, first = first' ++ s' :: mid := by
  rcases List.append_eq_append_iff.1 h with ⟨mid, rfl, hmid⟩ | ⟨mid, rfl, hmid⟩
  · cases mid with
    | nil =>
      obtain ⟨rfl, -⟩ := List.cons.inj hmid
      exact .inl ⟨by simp, rfl⟩
    | cons x mid =>
      obtain ⟨rfl, -⟩ := List.cons.inj hmid
      exact .inr (.inl ⟨mid, rfl⟩)
  · cases mid with
    | nil =>
      obtain ⟨rfl, -⟩ := List.cons.inj hmid
      exact .inl ⟨by simp, rfl⟩
    | cons x mid =>
      obtain ⟨rfl, -⟩ := List.cons.inj hmid
      exact .inr (.inr ⟨mid, rfl⟩)

theorem length_textAll_cons (first mid : List Sign) (s : Sign) :
    (textAll (first ++ s :: mid)).length =
      (textAll first ++ s.leading).length + s.glyph.text.length + (textAll mid).length := by
  simp only [Sign.textAll_append, Sign.textAll, Sign.text, List.length_append]
  omega

/-- No token starts in trivia or inside another token. -/
theorem HasAt.not_covers {stream : TokenStream} {k : Nat} {g : Glyph} (h : stream.HasAt k g)
    (hg : g.text ≠ []) : ¬ stream.Covers k := by
  obtain ⟨first, s, second, hs, rfl, rfl⟩ := h
  have hpos := List.length_pos_iff.2 hg
  intro hcovers
  -- the sign that covers the offset is the one that starts there, or stands behind or before it
  cases hcovers with
  | @trivia first' second' s' hs' hlow hhigh =>
    rcases split_cases (hs ▸ hs') with ⟨rfl, rfl⟩ | ⟨mid, rfl⟩ | ⟨mid, rfl⟩
    · exact absurd hhigh (Nat.lt_irrefl _)
    · rw [length_textAll_cons] at hlow
      omega
    · have := length_textAll_cons first' mid s'
      simp only [List.length_append] at *
      omega
  | @token first' second' s' hs' hlow hhigh =>
    rcases split_cases (hs ▸ hs') with ⟨rfl, rfl⟩ | ⟨mid, rfl⟩ | ⟨mid, rfl⟩
    · exact absurd hlow (Nat.lt_irrefl _)
    · have := length_textAll_cons first mid s
      simp only [List.length_append] at *
      omega
    · have := length_textAll_cons first' mid s'
      simp only [Sign.text, List.length_append] at *
      omega
  | trailing hlow =>
    rw [← Token.textAll_signsAll, hs, length_textAll_cons] at hlow
    omega

end TokenStream

/-! ## The places of tokens -/

/-- The tokens at every place stand there, and their signs are a part of all signs. -/
theorem Token.Within.signs {tokens ts : List Token} (h : Token.Within tokens ts) {p : Position}
    (hstands : Token.StandsAll p tokens) :
    ∃ first second, signsAll tokens = first ++ (signsAll ts ++ second) ∧
      Token.StandsAll (p.after (textAll first)) ts := by
  induction h with
  | whole => exact ⟨[], [], by simp, hstands⟩
  | @behind t rest _ ih =>
    obtain ⟨first, second, hsigns, -, hrest⟩ := ih
    refine ⟨first ++ t.signs, second, by simp [hsigns, signsAll], ?_⟩
    rw [Sign.textAll_append, Token.textAll_signs, Position.after_append]
    exact hrest
  | @inside t rest _ ih =>
    obtain ⟨first, second, hsigns, ht, -⟩ := ih
    cases t with
    | atom leading pos a =>
      exact ⟨first, signsAll (.atom leading pos a :: rest) ++ second, hsigns, trivial⟩
    | group leading pos d children closeLeading =>
      obtain ⟨rfl, hchildren⟩ := ht
      refine ⟨first ++ [⟨leading, .opening d⟩],
        ⟨closeLeading, .closing d⟩ :: (signsAll rest ++ second), ?_, ?_⟩
      · simp [hsigns, signsAll, Token.signs, Token.children]
      · rw [Sign.textAll_append, Position.after_append]
        simpa [Sign.textAll, Sign.text, Glyph.text, Token.children, Position.after_append,
          Position.after_cons, Position.after_nil] using hchildren

theorem Token.Within.of_append {tokens before ts : List Token}
    (h : Token.Within tokens (before ++ ts)) : Token.Within tokens ts := by
  induction before with
  | nil => exact h
  | cons t before ih => exact ih h.behind

/-- A token of a text starts at the offset of its position. -/
theorem Token.Within.hasAt {t : Text} {stream : TokenStream} (h : tokenize t = .ok stream)
    {tok : Token} {rest : List Token} (hw : Token.Within stream.tokens (tok :: rest)) :
    ∃ k, tok.pos = .ofOffset t k ∧ stream.HasAt k tok.opener := by
  obtain ⟨first, second, hsigns, hstands, -⟩ := hw.signs (standsAll_of_tokenize h)
  rw [signsAll, Token.signs_eq_cons tok] at hsigns
  refine ⟨(textAll first ++ tok.leading).length, ?_, first, ⟨tok.leading, tok.opener⟩, _, hsigns,
    rfl, rfl⟩
  have ht : t = (textAll first ++ tok.leading) ++ (tok.opener.text ++
      (textAll (tok.signs.tail ++ signsAll rest ++ second) ++ stream.trailing)) := by
    rw [← render_of_tokenize h, stream.render_eq_textAll, hsigns]
    simp [Sign.textAll_append, Sign.textAll, Sign.text]
  rw [← Position.after_eq_ofOffset ht, Position.after_append]
  cases tok with
  | atom => exact hstands.1
  | group => exact hstands.1

/-! ## Annotations -/

namespace Form

/-- The form is read at the start of the tokens, or among them as arguments of a directive. -/
def ReadIn (tokens : List Token) (f : Form) : Prop :=
  (∃ rest, Form.read tokens = some (f, rest)) ∨ f ∈ Form.entries tokens

/-- How a form starts: documentation with itself, an attribute with a hash, a bare attribute with
any token. -/
def Opens : Form → Glyph → Prop
  | doc _ _ marker value, g => g = .atom (.doc marker value)
  | marked _ _ _, g => ∃ joint, g = .atom (.punct '#' joint)
  | bare first _, g => g = first.opener

theorem opens_hash {hash : Token} (h : hash.isPunct '#' = true) (bang : Option Token)
    (bracket : Token) : (marked hash bang bracket).Opens hash.opener := by
  unfold Token.isPunct at h
  split at h
  · rename_i joint
    obtain rfl := of_decide_eq_true h
    exact ⟨joint, rfl⟩
  · cases h

theorem exists_first_of_read {tokens rest : List Token} {f : Form}
    (h : Form.read tokens = some (f, rest)) :
    ∃ tok after, tokens = tok :: after ∧ tok.pos = f.pos ∧ f.Opens tok.opener := by
  unfold Form.read at h
  split at h
  · cases h
    exact ⟨_, _, rfl, rfl, rfl⟩
  · rename_i hash second after _
    split at h
    · cases h
    rename_i hhash
    have hhash : hash.isPunct '#' = true := by simpa using hhash
    split at h
    · cases h
      exact ⟨hash, _, rfl, rfl, opens_hash hhash _ _⟩
    split at h
    · cases h
    split at h
    · split at h
      · cases h
        exact ⟨hash, _, rfl, rfl, opens_hash hhash _ _⟩
      · cases h
    · cases h
  · cases h

/-- A form starts with one of the tokens from which it is read. -/
theorem ReadIn.exists_first {tokens : List Token} {f : Form} (h : ReadIn tokens f) :
    ∃ before tok after, tokens = before ++ tok :: after ∧ tok.pos = f.pos ∧ f.Opens tok.opener := by
  rcases h with ⟨rest, h⟩ | h
  · obtain ⟨tok, after, htokens, hfirst⟩ := exists_first_of_read h
    exact ⟨[], tok, after, htokens, hfirst⟩
  fun_induction Form.entries tokens with
  | case1 => cases h
  | case2 first rest _ ih =>
    obtain ⟨before, tok, after, rfl, hfirst⟩ := ih h
    exact ⟨first :: before, tok, after, rfl, hfirst⟩
  | case3 first rest _ g after hread ih =>
    rcases List.mem_cons.1 h with rfl | h
    · obtain ⟨tok, after, htokens, hfirst⟩ := exists_first_of_read hread
      exact ⟨[], tok, after, htokens, hfirst⟩
    · obtain ⟨before, tok, after', rfl, hfirst⟩ := ih h
      refine ⟨g.tokens ++ before, tok, after', ?_, hfirst⟩
      rw [← read_append hread, List.append_assoc]
  | case4 first rest _ _ ih =>
    rcases List.mem_cons.1 h with rfl | h
    · exact ⟨[], first, rest, rfl, rfl, rfl⟩
    · obtain ⟨before, tok, after, hrest, hfirst⟩ := ih h
      refine ⟨first :: (rest.takeWhile (!endsBare ·) ++ before), tok, after, ?_, hfirst⟩
      rw [List.cons_append, List.append_assoc, ← hrest, List.takeWhile_append_dropWhile]

end Form

/-- Trivia, tokens and annotations of the text `t` are not confused in its tokens. -/
structure TokenStream.SetsApart (stream : TokenStream) (t : Text) : Prop where
  /-- The trivia and the tokens make up the text. -/
  whole : renderAll stream.tokens ++ stream.trailing = t
  /-- The trivia in front of a token or of a closing bracket is blank characters and ordinary
  comments, an interpreter line excepted that opens the text. -/
  leading : ∀ first s second, signsAll stream.tokens = first ++ s :: second →
    Trivia.Between (textAll first) s.leading (s.glyph.text ++ (textAll second ++ stream.trailing))
  /-- And so is the trivia at the end. -/
  trailing : Trivia.Between (renderAll stream.tokens) stream.trailing []
  /-- No token starts like trivia; documentation and literals are whole. -/
  tokens : ∀ first s second, signsAll stream.tokens = first ++ s :: second →
    s.glyph.Apart (textAll second ++ stream.trailing)
  /-- An annotation, at whatever place it is read, starts where a token starts: not in trivia, and
  not inside documentation or a literal. -/
  annotations : ∀ ts more f, Token.Within stream.tokens (ts ++ more) → Form.ReadIn ts f →
    ∃ k g, f.pos = .ofOffset t k ∧ f.Opens g ∧ stream.HasAt k g ∧ ¬ stream.Covers k

/-- Trivia, tokens and annotations are told apart in every text that can be read. -/
theorem tokenize_sets_apart {t : Text} {stream : TokenStream} (h : tokenize t = .ok stream) :
    stream.SetsApart t where
  whole := render_of_tokenize h
  leading := fun _ _ _ hs => (apart_of_tokenize h hs).1
  trailing := between_trailing_of_tokenize h
  tokens := fun _ _ _ hs => (apart_of_tokenize h hs).2
  annotations := by
    intro ts more f hw hf
    obtain ⟨before, tok, after, rfl, hpos, hopens⟩ := hf.exists_first
    rw [List.append_assoc] at hw
    obtain ⟨k, hk, hat⟩ := hw.of_append.hasAt h
    refine ⟨k, tok.opener, hpos ▸ hk, hopens, hat, hat.not_covers ?_⟩
    obtain ⟨first, s, second, hs, hg, -⟩ := hat
    exact hg ▸ (apart_of_tokenize h hs).2.notEmpty

/-- An interpreter line, a nested comment, a string, a raw string, documentation and a line comment,
each with what would be an attribute elsewhere. -/
theorem tokenize_sets_apart_hashes :
    let t : Text := "#!#[a]\n/* /* #[b] */ #[c] */#[d(\"\\\"#[e]\", r##\"\"#[f]\"##)]/// #[g]\nx//#[h]"
    ∃ stream, tokenize t = .ok stream ∧
      (signsAll stream.tokens).map (fun s => s.glyph.text) =
        ["#", "[", "d", "(", "\"\\\"#[e]\"", ",", "r##\"\"#[f]\"##", ")", "]", "/// #[g]", "x"] ∧
      stream.SetsApart t := by
  intro t
  obtain ⟨stream, htokenize, htexts⟩ := @exists_of_tokenize t
    (fun stream => (signsAll stream.tokens).map (fun s => s.glyph.text) =
      ["#", "[", "d", "(", "\"\\\"#[e]\"", ",", "r##\"\"#[f]\"##", ")", "]", "/// #[g]", "x"])
    (by decide +kernel)
  exact ⟨stream, htokenize, of_decide_eq_true htexts, tokenize_sets_apart htokenize⟩

end CondAttrs
