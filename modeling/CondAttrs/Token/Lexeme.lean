import CondAttrs.Token.Literal
import CondAttrs.Token.Trivia

/-!
# Flat lexing

The first half of reading a text: its division into trivia, tokens and single
brackets, from left to right, with no regard to nesting. Flat lexing stops at the
end of the text or at the first character that starts nothing. In both cases the
lexemes before that place are kept, because a bracket among them that does not
match is the earlier fault.

## Main statements

* `Glyph.read_append`: what was read and the rest make up the text.
* `Glyph.read_length_lt`: every lexeme takes a character, so lexing ends.
-/

namespace CondAttrs

/-- The punctuation characters. -/
def punctuation : Text :=
  "~!@#$%^&*-+=|\\;:,./<>?"

/-- Whether a character is punctuation. -/
def isPunctuation (c : Char) : Bool :=
  punctuation.contains c

namespace Atom

/-- The documentation comment behind its marker. -/
def readDoc (marker : DocMarker) (t : Text) : Except Fault (Atom × Text) :=
  if marker.isLine then .ok (.doc marker (spanLine t).1, (spanLine t).2)
  else
    match blockBody 0 t with
    | none => .error .commentUnterminated
    | some (body, after) => .ok (.doc marker body, after)

/-- The token that starts with a single quote. A character literal either starts
with an escape or has its closing quote two characters on; anything else is a
lifetime, if a word starts there. -/
def readApostrophe (rest : Text) : Except Fault (Atom × Text) :=
  let quoted : Except Fault (Atom × Text) :=
    (Literal.readQuoted ['\''] '\'' rest).map fun (text, after) => (.literal text, after)
  match rest with
  | [] => .error (.characterUnterminated none)
  | c :: more =>
    if c = '\\' || more.head? = some '\'' then quoted
    else if isWordStart c then
      .ok (.lifetime ('\'' :: (spanWord rest).1), (spanWord rest).2)
    else .error (.characterUnterminated (some c))

/-- The identifier at the start of a text. A raw identifier keeps its mark. -/
def readIdent (t : Text) : Atom × Text :=
  match t with
  | 'r' :: '#' :: c :: rest =>
    if isWordStart c then
      (.ident ('r' :: '#' :: (spanWord (c :: rest)).1), (spanWord (c :: rest)).2)
    else (.ident (spanWord t).1, (spanWord t).2)
  | t => (.ident (spanWord t).1, (spanWord t).2)

/-- The identifier, or the literal with a type letter, that starts with a word
character. -/
def readWord (t : Text) : Except Fault (Atom × Text) :=
  match Literal.readMarked t with
  | .error fault => .error fault
  | .ok (some (text, after)) => .ok (.literal text, after)
  | .ok none => .ok (readIdent t)

/-- The token at the start of the text `c :: rest`, in which no trivia stands in
front, and what follows it. -/
def read (c : Char) (rest : Text) : Except Fault (Atom × Text) :=
  match DocMarker.read (c :: rest) with
  | some (marker, after) => readDoc marker after
  | none =>
    if isWordStart c then readWord (c :: rest)
    else if Text.isDigit c then
      .ok (.literal (Literal.readNumber (c :: rest)).1, (Literal.readNumber (c :: rest)).2)
    else if c = '\'' then readApostrophe rest
    else if c = '"' then
      (Literal.readQuoted ['"'] '"' rest).map fun (text, after) => (.literal text, after)
    else if isPunctuation c then .ok (.punct c (rest.head?.any isPunctuation), rest)
    else .error (.characterInvalid c)

/-! ## What was read and the rest make up the text -/

theorem readDoc_append {marker : DocMarker} {t rest : Text} {a : Atom}
    (h : readDoc marker t = .ok (a, rest)) : a.text ++ rest = marker.opening ++ t := by
  unfold readDoc at h
  split at h
  · rename_i hl
    simp only [Except.ok.injEq, Prod.mk.injEq] at h
    obtain ⟨rfl, rfl⟩ := h
    have hc : marker.closing = [] := by cases marker <;> first | rfl | cases hl
    simp [Atom.text, hc, spanLine_append]
  · rename_i hl
    split at h
    · cases h
    · rename_i hb
      simp only [Except.ok.injEq, Prod.mk.injEq] at h
      obtain ⟨rfl, rfl⟩ := h
      have hc : marker.closing = ['*', '/'] := by
        cases marker <;> first | rfl | exact absurd rfl hl
      simp [Atom.text, hc, ← blockBody_append hb]

private theorem map_literal_eq {e : Except Fault (Text × Text)} {a : Atom} {rest : Text}
    (h : (e.map fun (text, after) => (Atom.literal text, after)) = .ok (a, rest)) :
    e = .ok (a.text, rest) := by
  cases e with
  | error => cases h
  | ok b =>
    simp only [Except.map, Except.ok.injEq, Prod.mk.injEq] at h
    obtain ⟨rfl, rfl⟩ := h
    rfl

theorem readApostrophe_append {t rest : Text} {a : Atom}
    (h : readApostrophe t = .ok (a, rest)) : a.text ++ rest = '\'' :: t := by
  unfold readApostrophe at h
  split at h
  · cases h
  · split at h
    · exact Literal.readQuoted_append (map_literal_eq h)
    · split at h
      · simp only [Except.ok.injEq, Prod.mk.injEq] at h
        obtain ⟨rfl, rfl⟩ := h
        simp [Atom.text, spanWord_append]
      · cases h

theorem readIdent_append (t : Text) : (readIdent t).1.text ++ (readIdent t).2 = t := by
  unfold readIdent
  split
  · split <;> simp [Atom.text, spanWord_append]
  · simp [Atom.text, spanWord_append]

theorem readWord_append {t rest : Text} {a : Atom} (h : readWord t = .ok (a, rest)) :
    a.text ++ rest = t := by
  unfold readWord at h
  split at h
  · cases h
  · rename_i hm
    simp only [Except.ok.injEq, Prod.mk.injEq] at h
    obtain ⟨rfl, rfl⟩ := h
    exact Literal.readMarked_append hm
  · simp only [Except.ok.injEq] at h
    have := readIdent_append t
    rw [h] at this
    exact this

theorem read_append {c : Char} {t rest : Text} {a : Atom} (h : read c t = .ok (a, rest)) :
    a.text ++ rest = c :: t := by
  unfold read at h
  split at h
  · rename_i hm
    rw [readDoc_append h, DocMarker.read_append hm]
  split at h
  · exact readWord_append h
  split at h
  · simp only [Except.ok.injEq, Prod.mk.injEq] at h
    obtain ⟨rfl, rfl⟩ := h
    exact Literal.spanNumber_append _ _ _
  split at h
  · rename_i hc
    rw [readApostrophe_append h, hc]
  split at h
  · rename_i hc
    rw [Literal.readQuoted_append (map_literal_eq h), hc]
    rfl
  split at h
  · simp only [Except.ok.injEq, Prod.mk.injEq] at h
    obtain ⟨rfl, rfl⟩ := h
    rfl
  · cases h

/-! ## Every token has a character -/

theorem readDoc_ne_nil {marker : DocMarker} {t rest : Text} {a : Atom}
    (h : readDoc marker t = .ok (a, rest)) : a.text ≠ [] := by
  have ho : marker.opening ≠ [] := by cases marker <;> simp [DocMarker.opening]
  unfold readDoc at h
  split at h
  · simp only [Except.ok.injEq, Prod.mk.injEq] at h
    obtain ⟨rfl, -⟩ := h
    simp [Atom.text, ho]
  · split at h
    · cases h
    · simp only [Except.ok.injEq, Prod.mk.injEq] at h
      obtain ⟨rfl, -⟩ := h
      simp [Atom.text, ho]

theorem readApostrophe_ne_nil {t rest : Text} {a : Atom}
    (h : readApostrophe t = .ok (a, rest)) : a.text ≠ [] := by
  unfold readApostrophe at h
  split at h
  · cases h
  · split at h
    · exact Literal.readQuoted_ne_nil (by simp) (map_literal_eq h)
    · split at h
      · simp only [Except.ok.injEq, Prod.mk.injEq] at h
        obtain ⟨rfl, -⟩ := h
        simp [Atom.text]
      · cases h

theorem readIdent_ne_nil {c : Char} {t : Text} (hc : isWordStart c = true) :
    (readIdent (c :: t)).1.text ≠ [] := by
  have hw : (spanWord (c :: t)).1 ≠ [] := by
    simp [spanWord, isWordPart_of_isWordStart hc]
  unfold readIdent
  split
  · split
    · simp [Atom.text]
    · simpa [Atom.text] using hw
  · simpa [Atom.text] using hw

theorem readWord_ne_nil {c : Char} {t rest : Text} {a : Atom} (hc : isWordStart c = true)
    (h : readWord (c :: t) = .ok (a, rest)) : a.text ≠ [] := by
  unfold readWord at h
  split at h
  · cases h
  · rename_i hm
    simp only [Except.ok.injEq, Prod.mk.injEq] at h
    obtain ⟨rfl, -⟩ := h
    exact Literal.readMarked_ne_nil hm
  · simp only [Except.ok.injEq] at h
    have := readIdent_ne_nil (t := t) hc
    rw [h] at this
    exact this

theorem read_ne_nil {c : Char} {t rest : Text} {a : Atom} (h : read c t = .ok (a, rest)) :
    a.text ≠ [] := by
  unfold read at h
  split at h
  · exact readDoc_ne_nil h
  split at h
  · rename_i hc
    exact readWord_ne_nil hc h
  split at h
  · rename_i hc
    simp only [Except.ok.injEq, Prod.mk.injEq] at h
    obtain ⟨rfl, -⟩ := h
    exact Literal.spanNumber_fst_ne_nil (isWordPart_of_isDigit hc)
  split at h
  · exact readApostrophe_ne_nil h
  split at h
  · exact Literal.readQuoted_ne_nil (by simp) (map_literal_eq h)
  split at h
  · simp only [Except.ok.injEq, Prod.mk.injEq] at h
    obtain ⟨rfl, -⟩ := h
    simp [Atom.text]
  · cases h

end Atom

/-! ## Lexemes -/

/-- A token or a single bracket. -/
inductive Glyph where
  /-- An opening bracket. -/
  | opening (delimiter : Delimiter)
  /-- A closing bracket. -/
  | closing (delimiter : Delimiter)
  /-- A token that is no bracket. -/
  | atom (atom : Atom)
deriving DecidableEq

namespace Glyph

/-- The characters of a glyph. -/
def text : Glyph → Text
  | opening d => [d.opening]
  | closing d => [d.closing]
  | atom a => a.text

/-- The glyph at the start of the text `c :: rest`, and what follows it. -/
def read (c : Char) (rest : Text) : Except Fault (Glyph × Text) :=
  match Delimiter.ofOpening? c with
  | some d => .ok (.opening d, rest)
  | none =>
    match Delimiter.ofClosing? c with
    | some d => .ok (.closing d, rest)
    | none =>
      match Atom.read c rest with
      | .error fault => .error fault
      | .ok (a, after) => .ok (.atom a, after)

/-- What was read and the rest make up the text. -/
theorem read_append {c : Char} {t rest : Text} {g : Glyph} (h : read c t = .ok (g, rest)) :
    g.text ++ rest = c :: t := by
  unfold read at h
  split at h
  · rename_i d hd
    simp only [Except.ok.injEq, Prod.mk.injEq] at h
    obtain ⟨rfl, rfl⟩ := h
    simp [text, Delimiter.ofOpening?_eq_some_iff.1 hd]
  split at h
  · rename_i d hd
    simp only [Except.ok.injEq, Prod.mk.injEq] at h
    obtain ⟨rfl, rfl⟩ := h
    simp [text, Delimiter.ofClosing?_eq_some_iff.1 hd]
  split at h
  · cases h
  · rename_i ha
    simp only [Except.ok.injEq, Prod.mk.injEq] at h
    obtain ⟨rfl, rfl⟩ := h
    exact Atom.read_append ha

/-- A glyph has a character. -/
theorem read_ne_nil {c : Char} {t rest : Text} {g : Glyph} (h : read c t = .ok (g, rest)) :
    g.text ≠ [] := by
  unfold read at h
  split at h
  · simp only [Except.ok.injEq, Prod.mk.injEq] at h
    obtain ⟨rfl, -⟩ := h
    simp [text]
  split at h
  · simp only [Except.ok.injEq, Prod.mk.injEq] at h
    obtain ⟨rfl, -⟩ := h
    simp [text]
  split at h
  · cases h
  · rename_i ha
    simp only [Except.ok.injEq, Prod.mk.injEq] at h
    obtain ⟨rfl, -⟩ := h
    exact Atom.read_ne_nil ha

/-- Behind a glyph there is less to read. -/
theorem read_length_lt {c : Char} {t rest : Text} {g : Glyph} (h : read c t = .ok (g, rest)) :
    rest.length < (c :: t).length := by
  have := List.length_pos_iff.2 (read_ne_nil h)
  rw [← read_append h, List.length_append]
  omega

end Glyph

/-- A glyph with the trivia in front of it and its position. -/
structure Lexeme where
  /-- The trivia in front. -/
  leading : Text
  /-- Where the glyph starts. -/
  pos : Position
  /-- The token or bracket. -/
  glyph : Glyph
deriving DecidableEq

/-- The text of a lexeme, its trivia included. -/
def Lexeme.text (l : Lexeme) : Text :=
  l.leading ++ l.glyph.text

/-- The outcome of flat lexing: the lexemes up to the place where it stopped, and
there either the trivia at the end of the text or a lexical fault. -/
structure Lexing where
  /-- The lexemes in order. -/
  lexemes : List Lexeme
  /-- How the text ends. -/
  ending : Except Diagnostic Text

namespace Lexing

/-- Flat lexing of a text that stands at `p`. -/
def scan (p : Position) (t : Text) : Lexing :=
  match _ht : Trivia.read p t with
  | .error d => ⟨[], .error d⟩
  | .ok (leading, []) => ⟨[], .ok leading⟩
  | .ok (leading, c :: more) =>
    match _hg : Glyph.read c more with
    | .error fault => ⟨[], .error (.lexical fault (p.after leading))⟩
    | .ok (glyph, rest) =>
      let next := scan ((p.after leading).after glyph.text) rest
      ⟨⟨leading, p.after leading, glyph⟩ :: next.lexemes, next.ending⟩
termination_by t.length
decreasing_by
  have := Glyph.read_length_lt _hg
  have := congrArg List.length (Trivia.read_append _ht)
  simp only [List.length_append, List.length_cons] at *
  omega

/-- A text put in front of the first trivia. -/
def prepend (line : Text) : Lexing → Lexing
  | ⟨[], ending⟩ => ⟨[], ending.map (line ++ ·)⟩
  | ⟨first :: rest, ending⟩ => ⟨⟨line ++ first.leading, first.pos, first.glyph⟩ :: rest, ending⟩

/-- Flat lexing of a whole text. An interpreter line is trivia. -/
def ofText (t : Text) : Lexing :=
  match Trivia.readShebang t with
  | .error d => ⟨[], .error d⟩
  | .ok (line, rest) => (scan (Position.start.after line) rest).prepend line

end Lexing

end CondAttrs
