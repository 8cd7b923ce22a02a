import CondAttrs.Proofs.Lexical.Glyph

/-!
# Runs of lexemes

A lexeme without its position is a *sign*: trivia and the glyph behind it. `Runs`
says of a list of signs that lexing finds them, one after the other, in front of a
given text; it refers to lexing of one glyph and of one stretch of trivia only. Flat
lexing of a text succeeds exactly if the text is a run of signs with trivia at its end,
and then finds these signs. So a text is lexed by showing that it is a run, and a run
is put together from parts of other runs.

## Main definitions

* `Sign`, `Sign.textAll`, `Runs`.

## Main statements

* `runs_append`: runs are composed.
* `Runs.kin`, `Runs.echo`: runs in other surroundings.
* `Lexing.runs_of_scan`, `Lexing.scan_of_runs`: lexing finds the signs of a run.
* `Lexing.scan_runs`: it goes on behind them, whatever follows.
-/

namespace CondAttrs

/-- A lexeme without its position. -/
structure Sign where
  /-- The trivia in front. -/
  leading : Text
  /-- The token or bracket. -/
  glyph : Glyph

namespace Sign

/-- The text of a sign, its trivia included. -/
def text (s : Sign) : Text :=
  s.leading ++ s.glyph.text

/-- The text of the signs of a list. -/
def textAll : List Sign → Text
  | [] => []
  | s :: rest => s.text ++ textAll rest

theorem textAll_append (first second : List Sign) :
    textAll (first ++ second) = textAll first ++ textAll second := by
  induction first with
  | nil => rfl
  | cons s rest ih => simp [textAll, ih]

/-- The signs, the record of punctuation of the last one made anew in front of `rest`. -/
def rejoinLast (rest : Text) : List Sign → List Sign
  | [] => []
  | [s] => [⟨s.leading, s.glyph.rejoin rest⟩]
  | s :: t :: more => s :: rejoinLast rest (t :: more)

@[simp] theorem textAll_rejoinLast (rest : Text) (signs : List Sign) :
    textAll (rejoinLast rest signs) = textAll signs := by
  fun_induction rejoinLast rest signs with
  | case1 => rfl
  | case2 s => simp [textAll, text]
  | case3 s t more ih => rw [textAll, textAll, ih]

/-- Whether the last sign is a line of documentation. -/
def endsDocLine (signs : List Sign) : Bool :=
  signs.getLast?.any fun s => s.glyph.isDocLine

/-- Whether the last sign is two single quotes. -/
def endsQuotes (signs : List Sign) : Bool :=
  signs.getLast?.any fun s => s.glyph.isQuotes

end Sign

/-- The sign of a lexeme. -/
def Lexeme.sign (l : Lexeme) : Sign :=
  ⟨l.leading, l.glyph⟩

/-- Lexing finds the signs in front of `rest`. -/
def Runs : List Sign → Text → Prop
  | [], _ => True
  | s :: more, rest =>
    Trivia.Closed s.leading ∧ s.glyph.Fits (Sign.textAll more ++ rest) ∧ Runs more rest

theorem runs_append {first second : List Sign} {rest : Text} :
    Runs (first ++ second) rest ↔ Runs first (Sign.textAll second ++ rest) ∧ Runs second rest := by
  induction first with
  | nil => simp [Runs]
  | cons s more ih =>
    simp only [List.cons_append, Runs, Sign.textAll_append, List.append_assoc, ih]
    constructor
    · rintro ⟨hl, hg, hm, hs⟩
      exact ⟨⟨hl, hg, hm⟩, hs⟩
    · rintro ⟨⟨hl, hg, hm⟩, hs⟩
      exact ⟨hl, hg, hm, hs⟩

/-! ## Other surroundings -/

namespace Runs

variable {signs : List Sign} {old new : Text}

/-- A run stays one in front of kin. -/
theorem kin (h : Runs signs old) (hk : Kin old new) : Runs signs new := by
  induction signs with
  | nil => trivial
  | cons s more ih =>
    obtain ⟨hl, hg, hm⟩ := h
    exact ⟨hl, hg.kin (hk.append _), ih hm⟩

/-- What stands in front of a further sign is in front of kin. -/
theorem kin_text {s : Sign} (h : Runs (s :: signs) old) (he : Echoes old new) :
    Kin (Sign.textAll (s :: signs) ++ old) (Sign.textAll (s :: signs) ++ new) := by
  obtain ⟨-, hg, -⟩ := h
  have hk : Kin (s.leading ++ (s.glyph.text ++ (Sign.textAll signs ++ old)))
      (s.leading ++ (s.glyph.text ++ (Sign.textAll signs ++ new))) :=
    Kin.of_echoes hg.ne_nil hg.stops (he.append _)
  simpa only [Sign.textAll, Sign.text, List.append_assoc] using hk

/-- A run that does not end with a line of documentation, nor with two quotes that need the
next one, stays one in front of what echoes, the record of punctuation of its last sign made
anew. -/
theorem echo (h : Runs signs old) (hend : Sign.endsDocLine signs = false) (he : Echoes old new)
    (hquotes : old.head? = some '\'' → new.head? = some '\'' ∨ Sign.endsQuotes signs = false) :
    Runs (Sign.rejoinLast new signs) new := by
  fun_induction Sign.rejoinLast new signs with
  | case1 => trivial
  | case2 s =>
    obtain ⟨hl, hg, -⟩ := h
    exact ⟨hl, Glyph.Fits.echo hg hend he hquotes, trivial⟩
  | case3 s t more ih =>
    obtain ⟨hl, hg, hm⟩ := h
    have hend' : Sign.endsDocLine (t :: more) = false := by
      simpa only [Sign.endsDocLine, List.getLast?_cons_cons] using hend
    have hquotes' : old.head? = some '\'' →
        new.head? = some '\'' ∨ Sign.endsQuotes (t :: more) = false := by
      simpa only [Sign.endsQuotes, List.getLast?_cons_cons] using hquotes
    refine ⟨hl, ?_, ih hm hend' hquotes'⟩
    rw [Sign.textAll_rejoinLast]
    exact hg.kin (hm.kin_text he)

/-- The record of punctuation of the last sign is true of the text behind. -/
theorem rejoinLast_eq (h : Runs signs old)
    (hhead : new.head?.any isPunctuation = old.head?.any isPunctuation) :
    Sign.rejoinLast new signs = signs := by
  fun_induction Sign.rejoinLast new signs with
  | case1 => rfl
  | case2 s => rw [h.2.1.rejoin_eq hhead]
  | case3 s t more ih => rw [ih h.2.2]

/-- The text of a run ends with the text of its last glyph. -/
theorem endsBlank (h : Runs signs old) (hend : Sign.endsDocLine signs = false) :
    (Sign.textAll signs).endsBlank = false := by
  induction signs with
  | nil => rfl
  | cons s more ih =>
    obtain ⟨-, hg, hm⟩ := h
    rw [Sign.textAll]
    cases more with
    | nil =>
      rw [Sign.textAll, List.append_nil, Sign.text, Text.endsBlank_append_of_ne_nil hg.ne_nil]
      exact hg.endsBlank hend
    | cons t more =>
      have hne : Sign.textAll (t :: more) ≠ [] := by
        have := hm.2.1.ne_nil
        simp [Sign.textAll, Sign.text, this]
      rw [Text.endsBlank_append_of_ne_nil hne]
      refine ih hm ?_
      simpa only [Sign.endsDocLine, List.getLast?_cons_cons] using hend

/-- The first trivia of a run may be exchanged. -/
theorem withLeading {s : Sign} {leading : Text} (h : Runs (s :: signs) old)
    (hl : Trivia.Closed leading) : Runs (⟨leading, s.glyph⟩ :: signs) old :=
  ⟨hl, h.2⟩

end Runs

/-! ## Lexing -/

namespace Lexing

theorem scan_of_glyph {p : Position} {leading rest : Text} {g : Glyph}
    (hl : Trivia.Closed leading) (hg : g.Fits rest) :
    scan p (leading ++ (g.text ++ rest)) =
      ⟨⟨leading, p.after leading, g⟩ ::
        (scan ((p.after leading).after g.text) rest).lexemes,
        (scan ((p.after leading).after g.text) rest).ending⟩ := by
  have hr := hl _ hg.stops p
  obtain ⟨c, more, htext, -, hread⟩ := hg
  rw [scan]
  split
  · rename_i h; rw [hr] at h; cases h
  · rename_i h
    rw [hr, htext] at h
    cases h
  · rename_i h
    rw [hr, htext] at h
    simp only [List.cons_append, Except.ok.injEq, Prod.mk.injEq, List.cons.injEq] at h
    obtain ⟨rfl, rfl, rfl⟩ := h
    split
    · rename_i h'; rw [hread] at h'; cases h'
    · rename_i h'
      rw [hread] at h'
      cases h'
      rfl

theorem scan_final {p : Position} {trailing : Text} (h : Trivia.Final trailing) :
    scan p trailing = ⟨[], .ok trailing⟩ := by
  rw [scan]
  split
  · rename_i hr; rw [h p] at hr; cases hr
  · rename_i hr; rw [h p] at hr; cases hr; rfl
  · rename_i hr; rw [h p] at hr; cases hr

/-- Lexing stops where no glyph can be read. -/
theorem scan_of_fault {p : Position} {leading more : Text} {c : Char} {fault : Fault}
    (hl : Trivia.Closed leading) (hstops : Trivia.Stops (c :: more))
    (hread : Glyph.read c more = .error fault) :
    scan p (leading ++ c :: more) = ⟨[], .error (.lexical fault (p.after leading))⟩ := by
  have hr := hl _ hstops p
  rw [scan]
  split
  · rename_i h; rw [hr] at h; cases h
  · rename_i h; rw [hr] at h; cases h
  · rename_i h
    rw [hr] at h
    cases h
    split
    · rename_i h'
      rw [hread] at h'
      cases h'
      rfl
    · rename_i h'; rw [hread] at h'; cases h'

/-- Lexing finds the signs of a run, and goes on behind them. -/
theorem scan_runs {signs : List Sign} {rest : Text} (h : Runs signs rest) (p : Position) :
    ∃ lexemes q, scan p (Sign.textAll signs ++ rest) =
        ⟨lexemes ++ (scan q rest).lexemes, (scan q rest).ending⟩ ∧
      lexemes.map Lexeme.sign = signs := by
  induction signs generalizing p with
  | nil => exact ⟨[], p, rfl, rfl⟩
  | cons s more ih =>
    obtain ⟨hl, hg, hm⟩ := h
    obtain ⟨lexemes, q, hscan, hsigns⟩ := ih hm ((p.after s.leading).after s.glyph.text)
    refine ⟨⟨s.leading, p.after s.leading, s.glyph⟩ :: lexemes, q, ?_, ?_⟩
    · simp only [Sign.textAll, Sign.text, List.append_assoc]
      rw [scan_of_glyph hl hg, hscan]
      rfl
    · rw [List.map_cons, hsigns]
      rfl

/-- Lexing finds the signs of a run. -/
theorem scan_of_runs {signs : List Sign} {trailing : Text} (h : Runs signs trailing)
    (hf : Trivia.Final trailing) (p : Position) :
    ∃ lexemes, scan p (Sign.textAll signs ++ trailing) = ⟨lexemes, .ok trailing⟩ ∧
      lexemes.map Lexeme.sign = signs := by
  obtain ⟨lexemes, q, hscan, hsigns⟩ := scan_runs h p
  rw [scan_final hf, List.append_nil] at hscan
  exact ⟨lexemes, hscan, hsigns⟩

/-- What lexing finds is a run. -/
theorem runs_of_scan {p : Position} {t trailing : Text} {lexemes : List Lexeme}
    (h : scan p t = ⟨lexemes, .ok trailing⟩) :
    Sign.textAll (lexemes.map Lexeme.sign) ++ trailing = t ∧
      Runs (lexemes.map Lexeme.sign) trailing ∧ Trivia.Final trailing := by
  fun_induction scan p t generalizing lexemes with
  | case1 => cases h
  | case2 p t leading hr =>
    simp only [Lexing.mk.injEq, Except.ok.injEq] at h
    obtain ⟨rfl, rfl⟩ := h
    obtain ⟨rfl, hf⟩ := Trivia.read_final hr
    exact ⟨rfl, trivial, hf⟩
  | case3 => cases h
  | case4 p t leading c more hr glyph rest hg next =>
    rename_i ih
    simp only [Lexing.mk.injEq] at h
    obtain ⟨rfl, hend⟩ := h
    obtain ⟨htext, hruns, hf⟩ := ih (by rw [← hend])
    obtain ⟨hclosed, hstops⟩ := Trivia.read_closed hr (List.cons_ne_nil c more)
    refine ⟨?_, ⟨hclosed, ?_, hruns⟩, hf⟩
    · rw [← Trivia.read_append hr, ← Glyph.read_append hg, ← htext]
      simp [Sign.textAll, Sign.text, Lexeme.sign, next]
    · rw [htext]
      exact Glyph.fits_of_read hstops hg

end Lexing

end CondAttrs
