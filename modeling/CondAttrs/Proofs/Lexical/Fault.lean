import CondAttrs.Token.Tree

/-!
# Lexical faults

Reading a text fails for a fault of one of its parts: a comment or literal that does not end, a
character that starts nothing, brackets that do not match. Whatever it is, it is an error and
never a warning, and it is told from what can be wrong with the tokens of a text. The statement is
carried up from the readers of single tokens through flat lexing to the matching of brackets.

## Main definitions

* `Fault.isLexical`: the faults of a text that does not divide into balanced tokens.

## Main statements

* `Glyph.read_error`: a token that cannot be read is a lexical fault.
* `isLexical_of_tokenize`: a text that is no token tree has a lexical fault.
* `isError_of_tokenize`: this is an error.
-/

namespace CondAttrs

/-- Whether the fault is that a text does not divide into balanced tokens. -/
def Fault.isLexical : Fault → Bool
  | commentUnterminated => true
  | characterInvalid _ => true
  | rawUnterminated _ => true
  | literalUnterminated _ => true
  | characterUnterminated _ => true
  | delimiterUnbalanced _ _ => true
  | delimiterUnclosed _ => true
  | _ => false

theorem Fault.severity_of_isLexical {f : Fault} (h : f.isLexical = true) : f.severity = .error := by
  cases f <;> first | rfl | cases h

/-! ## Tokens -/

theorem error_of_map {ε α β : Type} {r : Except ε α} {g : α → β} {e : ε}
    (h : r.map g = .error e) : r = .error e := by
  cases r with
  | error e' =>
    cases h
    rfl
  | ok a => cases h

namespace Literal

theorem readQuoted_error {opening rest : Text} {quote : Char} {f : Fault}
    (h : readQuoted opening quote rest = .error f) : f.isLexical = true := by
  unfold readQuoted at h
  split at h
  · cases h
    rfl
  · cases h

theorem readRaw_error {mark t : Text} {f : Fault} (h : readRaw mark t = .error f) :
    f.isLexical = true := by
  unfold readRaw at h
  split at h
  · cases h
  split at h
  · cases h
    rfl
  · cases h

theorem readMarked_error {t : Text} {f : Fault} (h : readMarked t = .error f) :
    f.isLexical = true := by
  unfold readMarked at h
  split at h
  · exact readRaw_error h
  · exact readRaw_error h
  · exact readRaw_error h
  · exact readQuoted_error (error_of_map h)
  · exact readQuoted_error (error_of_map h)
  · exact readQuoted_error (error_of_map h)
  · cases h

end Literal

namespace Atom

theorem readDoc_error {marker : DocMarker} {t : Text} {f : Fault}
    (h : readDoc marker t = .error f) : f.isLexical = true := by
  unfold readDoc at h
  split at h
  · cases h
  split at h
  · cases h
    rfl
  · cases h

theorem readApostrophe_error {t : Text} {f : Fault} (h : readApostrophe t = .error f) :
    f.isLexical = true := by
  unfold readApostrophe at h
  split at h
  · cases h
    rfl
  split at h
  · exact Literal.readQuoted_error (error_of_map h)
  split at h
  · cases h
  · cases h
    rfl

theorem readWord_error {t : Text} {f : Fault} (h : readWord t = .error f) :
    f.isLexical = true := by
  unfold readWord at h
  split at h
  · rename_i hmarked
    cases h
    exact Literal.readMarked_error hmarked
  · cases h
  · cases h

theorem read_error {c : Char} {t : Text} {f : Fault} (h : read c t = .error f) :
    f.isLexical = true := by
  unfold read at h
  split at h
  · exact readDoc_error h
  split at h
  · exact readWord_error h
  split at h
  · cases h
  split at h
  · exact readApostrophe_error h
  split at h
  · exact Literal.readQuoted_error (error_of_map h)
  split at h
  · cases h
  · cases h
    rfl

end Atom

theorem Glyph.read_error {c : Char} {t : Text} {f : Fault} (h : read c t = .error f) :
    f.isLexical = true := by
  unfold read at h
  split at h
  · cases h
  split at h
  · cases h
  split at h
  · rename_i hatom
    cases h
    exact Atom.read_error hatom
  · cases h

/-! ## Texts -/

namespace Trivia

theorem read_error {p : Position} {t : Text} {d : Diagnostic} (h : read p t = .error d) :
    d.fault.isLexical = true := by
  fun_induction read p t with
  | case1 => cases h
  | case2 =>
    cases h
    rfl
  | case3 p t text rest hnext d' hread ih =>
    cases h
    exact ih hread
  | case4 => cases h

theorem readShebang_error {t : Text} {d : Diagnostic} (h : readShebang t = .error d) :
    d.fault.isLexical = true := by
  fun_induction readShebang t with
  | case1 more d' hline ih =>
    cases h
    exact ih hline
  | case2 more line rest hline d' hread ih =>
    cases h
    exact read_error hread
  | case3 => cases h
  | case4 => cases h
  | case5 => cases h

end Trivia

namespace Lexing

theorem scan_error {p : Position} {t : Text} {d : Diagnostic} (h : (scan p t).ending = .error d) :
    d.fault.isLexical = true := by
  fun_induction scan p t with
  | case1 p t d' hread =>
    cases h
    exact Trivia.read_error hread
  | case2 => cases h
  | case3 p t leading c more hread fault hglyph =>
    cases h
    exact Glyph.read_error hglyph
  | case4 p t leading c more hread glyph rest hglyph next ih => exact ih h

theorem ofText_error {t : Text} {d : Diagnostic} (h : (ofText t).ending = .error d) :
    d.fault.isLexical = true := by
  unfold ofText at h
  split at h
  · rename_i hline
    cases h
    exact Trivia.readShebang_error hline
  · rename_i line rest hline
    cases hscan : scan (Position.start.after line) rest with
    | mk lexemes ending =>
      have hending : ending = .error d := by
        rw [hscan] at h
        cases lexemes with
        | nil =>
          cases ending with
          | error d' => exact h
          | ok trailing => cases h
        | cons first more => exact h
      exact scan_error (by rw [hscan, hending])

end Lexing

theorem Nesting.build_error {stack : List Open} {done : List Token} {lexemes : List Lexeme}
    {ending : Except Diagnostic Text} {d : Diagnostic}
    (hending : ∀ d, ending = .error d → d.fault.isLexical = true)
    (h : build stack done lexemes ending = .error d) : d.fault.isLexical = true := by
  fun_induction build stack done lexemes ending with
  | case1 stack done d' =>
    cases h
    exact hending d rfl
  | case2 => cases h
  | case3 =>
    cases h
    rfl
  | case4 stack done leading pos a rest ending ih => exact ih hending h
  | case5 stack done leading pos d rest ending ih => exact ih hending h
  | case6 =>
    cases h
    rfl
  | case7 done leading pos rest ending innermost outer group ih => exact ih hending h
  | case8 =>
    cases h
    rfl

/-- A text that is no token tree has a lexical fault. -/
theorem isLexical_of_tokenize {t : Text} {d : Diagnostic} (h : tokenize t = .error d) :
    d.fault.isLexical = true :=
  Nesting.build_error (fun _ => Lexing.ofText_error) h

/-- A text that is no token tree is an error. -/
theorem isError_of_tokenize {t : Text} {d : Diagnostic} (h : tokenize t = .error d) :
    d.isError = true := by
  rw [Diagnostic.isError, Diagnostic.severity,
    Fault.severity_of_isLexical (isLexical_of_tokenize h)]
  rfl

end CondAttrs
