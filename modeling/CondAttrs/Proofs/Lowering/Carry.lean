import CondAttrs.Proofs.Lexical.Shebang
import CondAttrs.Proofs.Lowering.Genuine
import CondAttrs.Proofs.Reading.SideBySide

/-!
# Lexing a text in which annotations were exchanged

The tokens of a text run. If attributes are exchanged for others that run in front of
anything, the new tokens run again, and what stands in front of an exchanged attribute is
not disturbed by it, because the new one starts with the same trivia and a hash.

The start of the text needs care. An interpreter line that leaves no comment open stays one,
since the text behind it starts with the same character. Where there is no such line, a text
that starts with the marks of an inner attribute must go on with a bracket. It does unless it
starts with two pairs of marks, of which the first is judged by what follows the second.

## Main definitions

* `Carries`: wherever the old tokens run, the new ones do.

## Main statements

* `compatible_carries`: the relation is kept by what items are made of.
* `Carries.tokenize`: the new text is read as the new tokens.
-/

namespace CondAttrs

open Trivia (Closed Stops Final)

/-! ## Carrying over -/

theorem behind_append {first second : List Sign} {rest : Text} (h : first ≠ []) :
    Behind (first ++ second) rest ↔
      Behind first (Sign.textAll second ++ rest) ∧ Runs second rest := by
  cases first with
  | nil => exact absurd rfl h
  | cons s more =>
    simp only [List.cons_append, Behind, Sign.textAll_append, List.append_assoc, runs_append,
      and_assoc]

theorem Behind.kin {signs : List Sign} {old new : Text} (h : Behind signs old)
    (hk : Kin old new) : Behind signs new := by
  cases signs with
  | nil => trivial
  | cons s more => exact ⟨h.1.kin (hk.append _), h.2.kin hk⟩

theorem Token.runs_cons_iff {t : Token} {ts : List Token} {rest : Text} :
    Runs (signsAll (t :: ts)) rest ↔ Closed t.leading ∧ Behind (signsAll (t :: ts)) rest := by
  rw [signsAll, signs_eq_cons t, List.cons_append]
  exact Iff.rfl

/-- Wherever the old tokens run, the new tokens do, and they are no less welcome to what
stands in front. -/
structure Carries (old new : List Token) : Prop where
  side : SideBySide old new
  behind : ∀ {rest rest' : Text}, Kin rest rest' → Behind (Token.signsAll old) rest →
    Behind (Token.signsAll new) rest'
  kin : ∀ {rest rest' : Text}, Kin rest rest' → Behind (Token.signsAll old) rest →
    Kin (Token.renderAll old ++ rest) (Token.renderAll new ++ rest')

theorem Token.opener_face {t t' : Token} (h : t.face = t'.face) : t.opener = t'.opener :=
  congr_face (fun _ _ _ _ _ => rfl) (fun _ _ _ _ _ _ _ _ _ => rfl) h

theorem Token.opener_punct {t : Token} {c : Char} (h : t.isPunct c = true) :
    t.opener.text = [c] := by
  obtain ⟨_, _, _, rfl⟩ := isPunct_iff.1 h
  rfl

/-- An attribute starts with its trivia and a hash. -/
theorem Form.IsAttribute.cons {f : Form} (h : f.IsAttribute) :
    ∃ t rest, f.tokens = t :: rest ∧ t.leading = f.leading ∧ t.isPunct '#' = true := by
  cases f with
  | doc => cases h
  | bare => cases h
  | marked hash bang bracket => exact ⟨hash, bang.toList ++ [bracket], rfl, rfl, h.1⟩

namespace SideBySide

theorem eq_nil {new : List Token} (h : SideBySide [] new) : new = [] := by
  obtain ⟨cells, -, hold, rfl⟩ := h
  rw [Cell.olds_eq_nil_iff.1 hold, Cell.news_nil]

/-- Both sides start with the same trivia and the same character. -/
theorem cons {t : Token} {old new : List Token} (h : SideBySide (t :: old) new) :
    ∃ t' new', new = t' :: new' ∧ t'.leading = t.leading ∧
      t'.opener.text.head? = t.opener.text.head? := by
  obtain ⟨cells, hs, hold, rfl⟩ := h
  cases cells with
  | nil => cases hold
  | cons c cells =>
    obtain ⟨⟨hsound, haligned⟩, -⟩ := List.forall_mem_cons.1 hs
    cases c with
    | same u u' =>
      obtain ⟨rfl, -⟩ : u = t ∧ Cell.olds cells = old := by simpa [Cell.old] using hold
      exact ⟨u', Cell.news cells, rfl, haligned, by rw [Token.opener_face hsound]⟩
    | swap f f' =>
      obtain ⟨u, rest, htokens, hleading, hhash⟩ := hsound.1.cons
      obtain ⟨u', rest', htokens', hleading', hhash'⟩ := hsound.2.cons
      obtain ⟨rfl, -⟩ : u = t ∧ rest ++ Cell.olds cells = old := by
        simpa [Cell.old, htokens] using hold
      refine ⟨u', rest' ++ Cell.news cells, by simp [Cell.new, htokens'], ?_, ?_⟩
      · rw [hleading', hleading, haligned.1]
      · rw [Token.opener_punct hhash, Token.opener_punct hhash']

end SideBySide

namespace Carries

variable {old new : List Token} {rest rest' : Text}

theorem refl (ts : List Token) : Carries ts ts where
  side := .refl ts
  behind hk h := h.kin hk
  kin hk _ := hk.append _

/-- Tokens that are carried over run. -/
theorem runs (h : Carries old new) (hk : Kin rest rest') (hruns : Runs (Token.signsAll old) rest) :
    Runs (Token.signsAll new) rest' := by
  have hbehind := h.behind hk hruns.behind
  cases old with
  | nil =>
    rw [h.side.eq_nil]
    trivial
  | cons t old =>
    obtain ⟨t', new', rfl, hleading, -⟩ := h.side.cons
    rw [Token.runs_cons_iff, hleading]
    exact ⟨(Token.runs_cons_iff.1 hruns).1, hbehind⟩

theorem append {first first' second second' : List Token} (h : Carries first first')
    (h' : Carries second second') : Carries (first ++ second) (first' ++ second') := by
  by_cases hempty : first = []
  · subst hempty
    rw [h.side.eq_nil]
    exact h'
  have hsigns : Token.signsAll first ≠ [] := fun hnil => hempty (Token.signsAll_eq_nil_iff.1 hnil)
  have hsigns' : Token.signsAll first' ≠ [] := by
    obtain ⟨t, more, rfl⟩ := List.exists_cons_of_ne_nil hempty
    obtain ⟨t', more', rfl, -⟩ := h.side.cons
    intro hnil
    cases Token.signsAll_eq_nil_iff.1 hnil
  refine ⟨h.side.append h'.side, ?_, ?_⟩
  · intro rest rest' hk hbehind
    rw [Token.signsAll_append, behind_append hsigns, Token.textAll_signsAll] at hbehind
    rw [Token.signsAll_append, behind_append hsigns', Token.textAll_signsAll]
    exact ⟨h.behind (h'.kin hk hbehind.2.behind) hbehind.1, h'.runs hk hbehind.2⟩
  · intro rest rest' hk hbehind
    rw [Token.signsAll_append, behind_append hsigns, Token.textAll_signsAll] at hbehind
    rw [Token.renderAll_append, Token.renderAll_append, List.append_assoc, List.append_assoc]
    exact h.kin (h'.kin hk hbehind.2.behind) hbehind.1

theorem group {leading closeLeading : Text} {pos : Position} {d : Delimiter}
    {children children' : List Token} (h : Carries children children') :
    Carries [.group leading pos d children closeLeading]
      [.group leading pos d children' closeLeading] := by
  -- what stands behind the children, up to and with the closing bracket
  have hclose : ∀ {rest rest' : Text}, Kin rest rest' →
      Kin (Sign.textAll [⟨closeLeading, .closing d⟩] ++ rest)
        (Sign.textAll [⟨closeLeading, .closing d⟩] ++ rest') := fun hk => hk.append _
  refine ⟨.same rfl rfl, ?_, ?_⟩
  · intro rest rest' hk hbehind
    rw [Token.signsAll_singleton, Token.signs, Behind, runs_append] at hbehind
    rw [Token.signsAll_singleton, Token.signs, Behind, runs_append]
    obtain ⟨-, hchildren, hclosing⟩ := hbehind
    refine ⟨Glyph.fits_opening d _, h.runs (hclose hk) hchildren, hclosing.1,
      Glyph.fits_closing d _, trivial⟩
  · intro rest rest' hk hbehind
    rw [Token.signsAll_singleton, Token.signs, Behind, runs_append] at hbehind
    have hinside := (h.kin (hclose hk) hbehind.2.1.behind).append (leading ++ [d.opening])
    simpa [Token.renderAll, Token.render, Sign.textAll, Sign.text, Glyph.text] using hinside

/-- The text of an attribute goes on with a hash behind its trivia. -/
theorem exists_hash {f : Form} (hf : f.IsAttribute) (rest : Text) :
    ∃ old, Token.renderAll f.tokens ++ rest = f.leading ++ '#' :: old := by
  obtain ⟨t, ts, htokens, hleading, hhash⟩ := hf.cons
  obtain ⟨leading, pos, joint, rfl⟩ := Token.isPunct_iff.1 hhash
  refine ⟨Token.renderAll ts ++ rest, ?_⟩
  rw [htokens, ← hleading]
  simp [Token.renderAll, Token.render, Token.leading, Atom.text]

/-- An attribute may be exchanged for one that runs in front of anything and whose hash is
directly in front of a seam. -/
theorem exchange {f f' : Form} (hf : f.IsAttribute) (hf' : f'.IsAttribute)
    (haligned : (Cell.swap f f').Aligned)
    (hbehind : ∀ rest, Behind (Token.signsAll f'.tokens) rest) {c : Char} {more : Text}
    (hc : isSeam c = true) (htext : Token.renderAll f'.tokens = f'.leading ++ '#' :: c :: more) :
    Carries f.tokens f'.tokens := by
  refine ⟨.swap hf hf' haligned, fun _ _ => hbehind _, ?_⟩
  intro rest rest' _ _
  obtain ⟨old, hold⟩ := exists_hash hf rest
  rw [hold, htext, haligned.1, List.append_assoc]
  exact (Kin.hash hc).append f.leading

/-- Positions do not matter. -/
theorem of_forgetAll {old old' : List Token} (h : Carries old new)
    (hold : Token.forgetAll old' = Token.forgetAll old) : Carries old' new := by
  have hsigns : Token.signsAll old' = Token.signsAll old := by
    rw [← Token.signsAll_forgetAll, hold, Token.signsAll_forgetAll]
  refine ⟨h.side.of_forgetAll hold rfl, ?_, ?_⟩
  · rw [hsigns]
    exact h.behind
  · rw [hsigns, Token.renderAll_of_forgetAll hold]
    exact h.kin

end Carries

theorem compatible_carries : Compatible Carries where
  refl := Carries.refl
  append := Carries.append
  group := Carries.group

/-! ## The start of a text -/

namespace Token

/-- A token is its trivia, its first glyph and the rest. -/
theorem renderAll_opener (t : Token) (ts : List Token) (rest : Text) :
    renderAll (t :: ts) ++ rest =
      t.leading ++ (t.opener.text ++ (Sign.textAll (t.signs.tail ++ signsAll ts) ++ rest)) := by
  rw [← textAll_signsAll, signsAll, signs_eq_cons t, List.cons_append, Sign.textAll, Sign.text,
    List.tail_cons, List.append_assoc, List.append_assoc]

theorem runs_opener {t : Token} {ts : List Token} {rest : Text}
    (h : Runs (signsAll (t :: ts)) rest) :
    Closed t.leading ∧ t.opener.Fits (Sign.textAll (t.signs.tail ++ signsAll ts) ++ rest) ∧
      Runs (signsAll ts) rest := by
  have htail := (runs_append.1 h).2
  rw [signsAll, signs_eq_cons t, List.cons_append] at h
  exact ⟨h.1, h.2.1, htail⟩

/-- The first character behind the trivia of a run. -/
theorem significant_runs {ts : List Token} {rest : Text} (h : Runs (signsAll ts) rest)
    (hrest : Final rest) :
    Trivia.significant (renderAll ts ++ rest) = some (ts.head?.bind fun t => t.opener.text.head?) := by
  cases ts with
  | nil => exact Trivia.significant_final hrest
  | cons t ts =>
    obtain ⟨hclosed, hfits, -⟩ := runs_opener h
    obtain ⟨c, more, hopener⟩ := List.exists_cons_of_ne_nil hfits.ne_nil
    rw [renderAll_opener, Trivia.significant_closed hclosed hfits.stops]
    simp [hopener]

/-- A run whose text starts with a mark starts with that mark. -/
theorem cons_of_mark {ts : List Token} {rest text : Text} {c : Char}
    (h : Runs (signsAll ts) rest) (hrest : Final rest) (hc : isPunctuation c = true ∧ c ≠ '/')
    (htext : renderAll ts ++ rest = c :: text) :
    ∃ t more, ts = t :: more ∧ t.leading = [] ∧ t.isPunct c = true ∧
      renderAll more ++ rest = text ∧ Runs (signsAll more) rest := by
  have hmark : (Glyph.atom (.punct c (text.head?.any isPunctuation))).Fits text :=
    Glyph.fits_punct hc.1 hc.2
  have hstops : Stops (c :: text) := hmark.stops
  have hread := Trivia.read_of_stops hstops .start
  cases ts with
  | nil =>
    have hnil : rest = c :: text := htext
    rw [← hnil, hrest] at hread
    obtain ⟨hempty, -⟩ := Prod.mk.inj (Except.ok.inj hread)
    rw [hempty] at hnil
    cases hnil
  | cons t more =>
    obtain ⟨hclosed, hfits, hmore⟩ := runs_opener h
    rw [renderAll_opener] at htext
    rw [← htext, hclosed _ hfits.stops] at hread
    obtain ⟨hleading, -⟩ := Prod.mk.inj (Except.ok.inj hread)
    rw [hleading, List.nil_append] at htext
    obtain ⟨hopener, htail⟩ := hfits.unique hmark htext
    cases t with
    | group => cases hopener
    | atom leading pos a =>
      cases hopener
      refine ⟨_, more, rfl, hleading, by simp [isPunct], ?_, hmore⟩
      rw [← htail, ← textAll_signsAll]
      rfl

end Token

theorem Token.render_of_isPunct {t : Token} {c : Char} (h : t.isPunct c = true) (hl : t.leading = []) :
    t.render = [c] := by
  obtain ⟨leading, pos, joint, rfl⟩ := isPunct_iff.1 h
  obtain rfl : leading = [] := hl
  rfl

/-- The marks of an inner attribute at the start of the second side are followed by a bracket:
in the attribute that starts there, or because they were on the first side. -/
theorem SideBySide.bracket_of_marks {old new : List Token} {u' v' : Token} {trailing : Text}
    (h : SideBySide old (u' :: v' :: new)) (hold : Runs (Token.signsAll old) trailing)
    (hfinal : Final trailing)
    (hline : Trivia.readShebang (Token.renderAll old ++ trailing) =
      .ok ([], Token.renderAll old ++ trailing))
    (hmarks : ¬ ['#', '!', '#', '!'] <+: Token.renderAll old ++ trailing)
    (hu' : u'.isPunct '#' = true ∧ u'.leading = [])
    (hv' : v'.isPunct '!' = true ∧ v'.leading = []) :
    ∃ w' more, new = w' :: more ∧ w'.opener.text.head? = some '[' := by
  rcases h.cons_cases with ⟨u, rest, rfl, hface, hleading, hrest⟩ |
    ⟨f, f', rest, rest', -, hnew, -, hf', -, -⟩
  · obtain ⟨v, rest, rfl, hv, -, hvleading, hrest⟩ :=
      hrest.cons_of_selects (Token.selects_isPunct (c := '!') (by decide)) hv'.1
    have hu : u.isPunct '#' = true := by rw [Token.isPunct_face _ hface, hu'.1]
    have htext : Token.renderAll (u :: v :: rest) ++ trailing =
        '#' :: '!' :: (Token.renderAll rest ++ trailing) := by
      rw [Token.renderAll, Token.renderAll, Token.render_of_isPunct hu (hleading ▸ hu'.2),
        Token.render_of_isPunct hv (hvleading ▸ hv'.2)]
      rfl
    rw [htext] at hline hmarks
    have hruns : Runs (Token.signsAll rest) trailing :=
      (Token.runs_opener (Token.runs_opener hold).2.2).2.2
    have hbracket := Trivia.significant_of_readShebang hline
      (fun more hmore => hmarks ⟨more, by rw [hmore]; rfl⟩) (Token.significant_runs hruns hfinal)
    obtain ⟨w, hw, hopener⟩ := Option.bind_eq_some_iff.1 hbracket
    obtain ⟨rest, rfl⟩ := List.head?_eq_some_iff.1 hw
    obtain ⟨w', more, rfl, -, hw'⟩ := hrest.cons
    exact ⟨w', more, rfl, by rw [hw', hopener]⟩
  · cases f' with
    | doc => cases hf'
    | bare => cases hf'
    | marked hash bang bracket =>
      obtain ⟨leading, pos, children, closeLeading, rfl⟩ := Token.isGroup_iff.1 hf'.2.2
      cases bang with
      | none =>
        obtain ⟨-, rfl, -⟩ : u' = hash ∧ v' = _ ∧ new = rest' := by simpa [Form.tokens] using hnew
        cases hv'.1
      | some bang =>
        obtain ⟨-, -, rfl⟩ : u' = hash ∧ v' = bang ∧ new = _ :: rest' := by
          simpa [Form.tokens] using hnew
        exact ⟨_, rest', rfl, rfl⟩

/-- Where there is no interpreter line, none appears, unless the text starts with two pairs of
marks. -/
theorem SideBySide.readShebang_nil {old new : List Token} {trailing : Text}
    (h : SideBySide old new) (hold : Runs (Token.signsAll old) trailing)
    (hnew : Runs (Token.signsAll new) trailing) (hfinal : Final trailing)
    (hline : Trivia.readShebang (Token.renderAll old ++ trailing) =
      .ok ([], Token.renderAll old ++ trailing))
    (hmarks : ¬ ['#', '!', '#', '!'] <+: Token.renderAll old ++ trailing) :
    Trivia.readShebang (Token.renderAll new ++ trailing) =
      .ok ([], Token.renderAll new ++ trailing) := by
  by_cases hstart : ∃ text, Token.renderAll new ++ trailing = '#' :: '!' :: text
  · obtain ⟨text, htext⟩ := hstart
    obtain ⟨u', new, rfl, hu'leading, hu', htext', hnew'⟩ :=
      Token.cons_of_mark hnew hfinal (by decide) htext
    obtain ⟨v', new, rfl, hv'leading, hv', htext'', hnew''⟩ :=
      Token.cons_of_mark hnew' hfinal (by decide) htext'
    obtain ⟨w', more, rfl, hw'⟩ := h.bracket_of_marks hold hfinal hline hmarks
      ⟨hu', hu'leading⟩ ⟨hv', hv'leading⟩
    obtain ⟨hclosed, hfits, -⟩ := Token.runs_opener hnew''
    rw [htext, ← htext'', Token.renderAll_opener]
    obtain ⟨tail, htail⟩ := List.head?_eq_some_iff.1 hw'
    rw [htail]
    exact Trivia.readShebang_attribute hclosed _
  · exact Trivia.readShebang_of_ne fun text htext => hstart ⟨text, htext⟩

namespace Trivia

/-- Whether annotations can be exchanged behind the start of a text: its interpreter line
leaves no comment open, and if there is no such line, the text does not start with two pairs
of marks. -/
def steadyStart (t : Text) : Bool :=
  match readShebang t with
  | .ok ([], _) => !(List.isPrefixOf ['#', '!', '#', '!'] t)
  | .ok (line, _) => contained line
  | .error _ => true

theorem marks_of_steadyStart {t rest : Text} (h : steadyStart t = true)
    (hline : readShebang t = .ok ([], rest)) : ¬ ['#', '!', '#', '!'] <+: t := by
  intro hprefix
  simp [steadyStart, hline, List.isPrefixOf_iff_prefix.2 hprefix] at h

theorem contained_of_steadyStart {t line rest : Text} (h : steadyStart t = true)
    (hne : line ≠ []) (hline : readShebang t = .ok (line, rest)) : contained line = true := by
  obtain ⟨c, more, rfl⟩ := List.exists_cons_of_ne_nil hne
  simpa only [steadyStart, hline] using h

end Trivia

theorem Token.opener_withLeading (leading : Text) (t : Token) :
    (t.withLeading leading).opener = t.opener := by
  cases t <;> rfl

theorem Token.behind_withLeading (leading : Text) (t : Token) (ts : List Token) (rest : Text) :
    Behind (signsAll (t.withLeading leading :: ts)) rest ↔ Behind (signsAll (t :: ts)) rest := by
  rw [signsAll, signsAll, signs_withLeading, signs_eq_cons t]
  exact Iff.rfl

namespace Carries

/-- The line in front of a text stays, whatever the tokens behind it are exchanged for. -/
theorem readShebang {line trailing : Text} {first u : Token} {rest new : List Token}
    (hc : Carries (first.withLeading (line ++ first.leading) :: rest) (u :: new))
    (hshebang : Trivia.readShebang (line ++ (Token.renderAll (first :: rest) ++ trailing)) =
      .ok (line, Token.renderAll (first :: rest) ++ trailing))
    (hruns : Runs (Token.signsAll (first :: rest)) trailing) (hfinal : Final trailing)
    (hruns' : Runs (Token.signsAll (u.withLeading first.leading :: new)) trailing)
    (hstart : Trivia.steadyStart (line ++ (Token.renderAll (first :: rest) ++ trailing)) = true) :
    Trivia.readShebang
        (line ++ (Token.renderAll (u.withLeading first.leading :: new) ++ trailing)) =
      .ok (line, Token.renderAll (u.withLeading first.leading :: new) ++ trailing) := by
  obtain ⟨u₁, new₁, hnew, hleading, hopener⟩ := hc.side.cons
  obtain ⟨rfl, rfl⟩ := List.cons.inj hnew
  rw [Token.leading_withLeading] at hleading
  by_cases hne : line = []
  · subst hne
    have hmarks := Trivia.marks_of_steadyStart hstart hshebang
    have hu : u.withLeading first.leading = u := by
      rw [List.nil_append] at hleading
      rw [← hleading, Token.withLeading_leading]
    have hside := hc.side
    rw [List.nil_append, Token.withLeading_leading] at hside
    rw [hu] at hruns' ⊢
    exact hside.readShebang_nil hruns hruns' hfinal hshebang hmarks
  · have hcontained := Trivia.contained_of_steadyStart hstart hne hshebang
    obtain ⟨hclosed, hfits, -⟩ := Token.runs_opener hruns
    obtain ⟨-, hfits', -⟩ := Token.runs_opener hruns'
    obtain ⟨c, more, htext⟩ := List.exists_cons_of_ne_nil hfits.ne_nil
    obtain ⟨more', htext'⟩ : ∃ more', (u.withLeading first.leading).opener.text = c :: more' := by
      rw [Token.opener_withLeading, htext] at hopener
      rw [Token.opener_withLeading]
      exact List.head?_eq_some_iff.1 hopener
    rw [Token.renderAll_opener, htext] at hshebang
    rw [Token.renderAll_opener, htext', Token.leading_withLeading]
    have hstops := hfits.stops
    have hstops' := hfits'.stops
    rw [htext] at hstops
    rw [htext'] at hstops'
    exact Trivia.readShebang_opening hne hshebang hcontained hclosed hstops hstops'

/-- The text of the new tokens is read as the new tokens. -/
theorem tokenize {t : Text} {stream : TokenStream} {new : List Token}
    (hc : Carries stream.tokens new) (h : CondAttrs.tokenize t = .ok stream)
    (hstart : Trivia.steadyStart t = true) :
    ∃ stream', CondAttrs.tokenize (Token.renderAll new ++ stream.trailing) = .ok stream' ∧
      stream'.trailing = stream.trailing ∧
      Token.forgetAll stream'.tokens = Token.forgetAll new := by
  have hrender := render_of_tokenize h
  obtain ⟨line, ⟨_ | ⟨first, rest⟩, trailing⟩, hshebang, ⟨hruns, hfinal⟩, rfl⟩ := tokenize_runs h
  · obtain rfl : new = [] := hc.side.eq_nil
    exact ⟨_, by rw [← h]; exact congrArg _ hrender, rfl, rfl⟩
  · obtain ⟨u, new, rfl, hleading, -⟩ := hc.side.cons
    rw [Token.leading_withLeading] at hleading
    have hbehind := hc.behind (Kin.refl trailing)
      ((Token.behind_withLeading _ first rest trailing).2 hruns.behind)
    have hruns' : Runs (Token.signsAll (u.withLeading first.leading :: new)) trailing := by
      rw [Token.runs_cons_iff, Token.leading_withLeading, Token.behind_withLeading]
      exact ⟨(Token.runs_opener hruns).1, hbehind⟩
    rw [TokenStream.render_prepend] at hrender
    rw [← hrender] at hshebang hstart
    have hline := hc.readShebang hshebang hruns hfinal hruns' hstart
    have hprepend : TokenStream.prepend line ⟨u.withLeading first.leading :: new, trailing⟩ =
        ⟨u :: new, trailing⟩ := by
      simp only [TokenStream.prepend, Token.leading_withLeading, Token.withLeading_withLeading,
        ← hleading, Token.withLeading_leading]
    have htext := TokenStream.render_prepend line ⟨u.withLeading first.leading :: new, trailing⟩
    obtain ⟨stream', htokenize, htrailing, hforget⟩ :=
      @tokenize_of_runs _ line ⟨u.withLeading first.leading :: new, trailing⟩ hline
        ⟨hruns', hfinal⟩
    rw [hprepend] at htext htrailing hforget
    refine ⟨stream', ?_, htrailing, hforget⟩
    rw [← htokenize]
    exact congrArg _ htext

end Carries

end CondAttrs
