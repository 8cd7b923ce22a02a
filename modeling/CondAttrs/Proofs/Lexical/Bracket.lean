import CondAttrs.Proofs.Lexical.Tree

/-!
# Matching brackets

A text that divides into lexemes is a token tree exactly if its brackets are well bracketed, and
then there is only one tree with these lexemes. Otherwise there is a first closing bracket that is
not the partner of the innermost one open in front of it, and it is reported; or all closing
brackets have their partners, and the innermost one that stays open is reported.

What is open in front of a lexeme is said without a stack: an opening bracket is the innermost open
one if what follows it is well bracketed. The stack of the groups that are still open agrees with
this all the time.

## Main definitions

* `WellBracketed`: brackets that match.
* `Lexeme.InnermostOpen`, `Lexeme.Meets`: what is open behind some lexemes.
* `Lexeme.Matched`: every closing bracket has its partner.
* `Token.lexemesAll`: the lexemes of trees.

## Main statements

* `Nesting.build_lexemesAll`: the lexemes of trees are built to these trees.
* `Nesting.build_faults`: which fault is found if brackets do not match.
* `tokenize_brackets`: matching brackets is exact.
-/

namespace CondAttrs

/-! ## Well bracketed lexemes -/

/-- Every bracket has its partner; tokens that are no brackets do not count. -/
inductive WellBracketed : List Glyph → Prop
  | nil : WellBracketed []
  | atom {a : Atom} {rest : List Glyph} : WellBracketed rest → WellBracketed (.atom a :: rest)
  | group {d : Delimiter} {inside rest : List Glyph} : WellBracketed inside →
      WellBracketed rest → WellBracketed (.opening d :: (inside ++ .closing d :: rest))

theorem WellBracketed.append {first second : List Glyph} (h : WellBracketed first)
    (h' : WellBracketed second) : WellBracketed (first ++ second) := by
  induction h with
  | nil => exact h'
  | atom _ ih => exact .atom ih
  | group hinside _ _ ih =>
    rw [List.cons_append, List.append_assoc, List.cons_append]
    exact .group hinside ih

namespace Lexeme

/-- The bracket that opens `d` at `pos` is the innermost one that is open behind the lexemes. -/
def InnermostOpen (before : List Lexeme) (d : Delimiter) (pos : Position) : Prop :=
  ∃ front leading inside, before = front ++ ⟨leading, pos, .opening d⟩ :: inside ∧
    WellBracketed (inside.map glyph)

/-- What a closing bracket behind the lexemes has to be the partner of, if anything is open. -/
def Meets (before : List Lexeme) : Option Delimiter → Prop
  | none => WellBracketed (before.map glyph)
  | some d => ∃ pos, InnermostOpen before d pos

/-- Every closing bracket is the partner of the innermost one that is open in front of it. -/
def Matched (lexemes : List Lexeme) : Prop :=
  ∀ before l after d, lexemes = before ++ l :: after → l.glyph = .closing d → Meets before (some d)

theorem matched_nil : Matched [] := by
  intro before l after d h
  simp at h

theorem Matched.concat {lexemes : List Lexeme} (h : Matched lexemes) {l : Lexeme}
    (hl : ∀ d, l.glyph = .closing d → Meets lexemes (some d)) : Matched (lexemes ++ [l]) := by
  intro before l' after d heq hclosing
  rcases List.eq_nil_or_concat after with rfl | ⟨after, last, rfl⟩
  · obtain ⟨rfl, hlast⟩ := List.append_inj' heq rfl
    cases hlast
    exact hl d hclosing
  · rw [List.concat_eq_append, ← List.cons_append, ← List.append_assoc] at heq
    exact h before l' after d (List.append_inj' heq rfl).1 hclosing

/-! ## The lexemes of trees -/

/-- The lexeme as a tree keeps it. A tree has no positions of closing brackets. -/
def kept : Lexeme → Lexeme
  | ⟨leading, _, .closing d⟩ => ⟨leading, .nowhere, .closing d⟩
  | ⟨leading, pos, .opening d⟩ => ⟨leading, pos, .opening d⟩
  | ⟨leading, pos, .atom a⟩ => ⟨leading, pos, .atom a⟩

theorem glyph_kept (l : Lexeme) : l.kept.glyph = l.glyph := by
  obtain ⟨_, _, _ | _ | _⟩ := l <;> rfl

theorem map_glyph_kept (lexemes : List Lexeme) :
    (lexemes.map kept).map glyph = lexemes.map glyph := by
  rw [List.map_map]
  exact List.map_congr_left fun l _ => l.glyph_kept

theorem eq_atom_of_kept {l : Lexeme} {leading : Text} {pos : Position} {a : Atom}
    (h : l.kept = ⟨leading, pos, .atom a⟩) : l = ⟨leading, pos, .atom a⟩ := by
  obtain ⟨_, _, _ | _ | _⟩ := l <;> cases h
  rfl

theorem eq_opening_of_kept {l : Lexeme} {leading : Text} {pos : Position} {d : Delimiter}
    (h : l.kept = ⟨leading, pos, .opening d⟩) : l = ⟨leading, pos, .opening d⟩ := by
  obtain ⟨_, _, _ | _ | _⟩ := l <;> cases h
  rfl

theorem eq_closing_of_kept {l : Lexeme} {leading : Text} {pos : Position} {d : Delimiter}
    (h : l.kept = ⟨leading, pos, .closing d⟩) : ∃ pos', l = ⟨leading, pos', .closing d⟩ := by
  obtain ⟨_, pos', _ | _ | _⟩ := l <;> cases h
  exact ⟨pos', rfl⟩

end Lexeme

namespace Token

mutual

/-- The lexemes of a tree. -/
def lexemes : Token → List Lexeme
  | .atom leading pos a => [⟨leading, pos, .atom a⟩]
  | .group leading pos d children closeLeading =>
    ⟨leading, pos, .opening d⟩ :: (lexemesAll children ++ [⟨closeLeading, .nowhere, .closing d⟩])

/-- The lexemes of a list of trees. -/
def lexemesAll : List Token → List Lexeme
  | [] => []
  | t :: rest => lexemes t ++ lexemesAll rest

end

mutual

theorem wellBracketed_lexemes : ∀ t : Token, WellBracketed (t.lexemes.map Lexeme.glyph)
  | .atom _ _ _ => .atom .nil
  | .group leading pos d children closeLeading => by
    rw [lexemes, List.map_cons, List.map_append]
    exact .group (wellBracketed_lexemesAll children) .nil

/-- The brackets of trees match. -/
theorem wellBracketed_lexemesAll : ∀ ts : List Token, WellBracketed ((lexemesAll ts).map Lexeme.glyph)
  | [] => .nil
  | t :: rest => by
    rw [lexemesAll, List.map_append]
    exact (wellBracketed_lexemes t).append (wellBracketed_lexemesAll rest)

end

/-- Lexemes whose brackets match are the lexemes of some trees. -/
theorem exists_of_wellBracketed {glyphs : List Glyph} (h : WellBracketed glyphs) :
    ∀ {ls : List Lexeme}, ls.map Lexeme.glyph = glyphs →
      ∃ ts, lexemesAll ts = ls.map Lexeme.kept := by
  induction h with
  | nil =>
    intro ls hls
    rw [List.map_eq_nil_iff.1 hls]
    exact ⟨[], rfl⟩
  | atom _ ih =>
    intro ls hls
    obtain ⟨⟨leading, pos, _⟩, rest, rfl, hl, hrest⟩ := List.map_eq_cons_iff.1 hls
    cases hl
    obtain ⟨ts, hts⟩ := ih hrest
    exact ⟨.atom leading pos _ :: ts, by rw [lexemesAll, hts]; rfl⟩
  | @group d _ _ _ _ ihinside ihrest =>
    intro ls hls
    obtain ⟨⟨leading, pos, _⟩, more, rfl, hl, hmore⟩ := List.map_eq_cons_iff.1 hls
    cases hl
    obtain ⟨inside, behind, rfl, hinside, hbehind⟩ := List.map_eq_append_iff.1 hmore
    obtain ⟨⟨closeLeading, _, _⟩, rest, rfl, hclose, hrest⟩ := List.map_eq_cons_iff.1 hbehind
    cases hclose
    obtain ⟨children, hchildren⟩ := ihinside hinside
    obtain ⟨ts, hts⟩ := ihrest hrest
    refine ⟨.group leading pos d children closeLeading :: ts, ?_⟩
    rw [lexemesAll, lexemes, hchildren, hts]
    simp [Lexeme.kept]

end Token

namespace Nesting

mutual

/-- The lexemes of a tree are built to that tree. -/
theorem build_lexemes : ∀ (t : Token) {ls : List Lexeme}, ls.map Lexeme.kept = t.lexemes →
    ∀ (stack : List Open) (done : List Token) (more : List Lexeme)
      (ending : Except Diagnostic Text),
      build stack done (ls ++ more) ending = build stack (t :: done) more ending
  | .atom leading pos a, ls, h => by
    intro stack done more ending
    obtain ⟨l, rest, rfl, hl, hrest⟩ := List.map_eq_cons_iff.1 h
    rw [List.map_eq_nil_iff.1 hrest, Lexeme.eq_atom_of_kept hl]
    rfl
  | .group leading pos d children closeLeading, ls, h => by
    intro stack done more ending
    obtain ⟨l, behind, rfl, hl, hbehind⟩ := List.map_eq_cons_iff.1 h
    obtain ⟨inside, last, rfl, hinside, hlast⟩ := List.map_eq_append_iff.1 hbehind
    obtain ⟨close, rest, rfl, hclose, hrest⟩ := List.map_eq_cons_iff.1 hlast
    obtain ⟨pos', hclose⟩ := Lexeme.eq_closing_of_kept hclose
    rw [List.map_eq_nil_iff.1 hrest, Lexeme.eq_opening_of_kept hl, hclose, List.cons_append,
      List.append_assoc, build, build_lexemesAll children hinside]
    simp [build]

/-- The lexemes of some trees are built to these trees. -/
theorem build_lexemesAll : ∀ (ts : List Token) {ls : List Lexeme},
    ls.map Lexeme.kept = Token.lexemesAll ts →
    ∀ (stack : List Open) (done : List Token) (more : List Lexeme)
      (ending : Except Diagnostic Text),
      build stack done (ls ++ more) ending = build stack (ts.reverse ++ done) more ending
  | [], ls, h => by
    intro stack done more ending
    rw [List.map_eq_nil_iff.1 h]
    rfl
  | t :: rest, ls, h => by
    intro stack done more ending
    obtain ⟨first, second, rfl, hfirst, hsecond⟩ := List.map_eq_append_iff.1 h
    rw [List.append_assoc, build_lexemes t hfirst, build_lexemesAll rest hsecond]
    simp

end

/-! ## The stack of open groups -/

/-- The groups on the stack are those that are open behind the lexemes, innermost first. -/
inductive Leaves : List Lexeme → List Open → Prop
  | nothing {before : List Lexeme} : WellBracketed (before.map Lexeme.glyph) → Leaves before []
  | opened {before inside : List Lexeme} {o : Open} {outer : List Open} : Leaves before outer →
      WellBracketed (inside.map Lexeme.glyph) →
      Leaves (before ++ ⟨o.leading, o.pos, .opening o.delimiter⟩ :: inside) (o :: outer)

theorem leaves_nil : Leaves [] [] := .nothing WellBracketed.nil

theorem Leaves.append {before : List Lexeme} {stack : List Open} (h : Leaves before stack)
    {ls : List Lexeme} (hls : WellBracketed (ls.map Lexeme.glyph)) :
    Leaves (before ++ ls) stack := by
  cases h with
  | nothing h =>
    refine .nothing ?_
    rw [List.map_append]
    exact h.append hls
  | opened houter hinside =>
    rw [List.append_assoc, List.cons_append]
    refine .opened houter ?_
    rw [List.map_append]
    exact hinside.append hls

theorem Leaves.innermostOpen {before : List Lexeme} {o : Open} {outer : List Open}
    (h : Leaves before (o :: outer)) : Lexeme.InnermostOpen before o.delimiter o.pos := by
  cases h with
  | opened houter hinside => exact ⟨_, _, _, rfl, hinside⟩

/-- A closing bracket that is the partner of the innermost open one closes its group. -/
theorem Leaves.close {before : List Lexeme} {o : Open} {outer : List Open}
    (h : Leaves before (o :: outer)) (leading : Text) (pos : Position) :
    Leaves (before ++ [⟨leading, pos, .closing o.delimiter⟩]) outer := by
  cases h with
  | opened houter hinside =>
    rw [List.append_assoc, List.cons_append]
    refine houter.append ?_
    rw [List.map_cons, List.map_append]
    exact .group hinside .nil

/-- The first closing bracket without its partner, with what it should have been the partner of. -/
def Unbalanced (lexemes : List Lexeme) (d : Delimiter) (innermost : Option Delimiter)
    (pos : Position) : Prop :=
  ∃ before leading after, lexemes = before ++ ⟨leading, pos, .closing d⟩ :: after ∧
    Lexeme.Matched before ∧ Lexeme.Meets before innermost ∧ innermost ≠ some d

/-- The lexemes match up to their end, and the innermost open bracket is `d` at `pos`. -/
def Unclosed (lexemes : List Lexeme) (d : Delimiter) (pos : Position) : Prop :=
  Lexeme.Matched lexemes ∧ Lexeme.InnermostOpen lexemes d pos

/-- Brackets that do not match are a fault of one of two kinds. -/
theorem build_faults {before : List Lexeme} {stack : List Open} (hstack : Leaves before stack)
    (hmatched : Lexeme.Matched before) (done : List Token) (ls : List Lexeme) (trailing : Text) :
    WellBracketed ((before ++ ls).map Lexeme.glyph) ∨
    (∃ d innermost pos, Unbalanced (before ++ ls) d innermost pos ∧
      build stack done ls (.ok trailing) =
        .error (.lexical (.delimiterUnbalanced d innermost) pos)) ∨
    ∃ d pos, Unclosed (before ++ ls) d pos ∧
      build stack done ls (.ok trailing) = .error (.lexical (.delimiterUnclosed d) pos) := by
  induction ls generalizing before stack done with
  | nil =>
    rw [List.append_nil]
    cases stack with
    | nil =>
      cases hstack with
      | nothing h => exact .inl h
    | cons o outer => exact .inr (.inr ⟨_, _, ⟨hmatched, hstack.innermostOpen⟩, rfl⟩)
  | cons l ls ih =>
    obtain ⟨leading, pos, glyph⟩ := l
    rw [List.append_cons]
    cases glyph with
    | atom a =>
      exact ih (@Leaves.append _ _ hstack [⟨leading, pos, .atom a⟩] (.atom .nil))
        (hmatched.concat (by simp)) _
    | opening d =>
      exact ih (@Leaves.opened before [] ⟨leading, pos, d, done⟩ stack hstack .nil)
        (hmatched.concat (by simp)) []
    | closing d =>
      cases stack with
      | nil =>
        cases hstack with
        | nothing h =>
          exact .inr (.inl ⟨d, none, pos, ⟨before, leading, ls, (List.append_cons ..).symm, hmatched,
            h, by simp⟩, rfl⟩)
      | cons o outer =>
        by_cases hd : d = o.delimiter
        · subst hd
          have hbuild : build (o :: outer) done (⟨leading, pos, .closing o.delimiter⟩ :: ls)
              (.ok trailing) = build outer (.group o.leading o.pos o.delimiter done.reverse leading ::
                o.before) ls (.ok trailing) := by
            rw [build, if_pos rfl]
          rw [hbuild]
          refine ih (hstack.close leading pos) (hmatched.concat ?_) _
          intro d' hd'
          cases hd'
          exact ⟨_, hstack.innermostOpen⟩
        · refine .inr (.inl ⟨d, some o.delimiter, pos, ⟨before, leading, ls,
            (List.append_cons ..).symm, hmatched, ⟨_, hstack.innermostOpen⟩,
            fun h => hd (Option.some.inj h).symm⟩, ?_⟩)
          rw [build, if_neg hd]

end Nesting

/-- Lexemes and their trees determine each other. -/
theorem Lexing.tree_eq_ok_iff {lexemes : List Lexeme} {trailing : Text} {stream : TokenStream} :
    (⟨lexemes, .ok trailing⟩ : Lexing).tree = .ok stream ↔
      Token.lexemesAll stream.tokens = lexemes.map Lexeme.kept ∧ stream.trailing = trailing := by
  have hbuild : ∀ ts, Token.lexemesAll ts = lexemes.map Lexeme.kept →
      (⟨lexemes, .ok trailing⟩ : Lexing).tree = .ok ⟨ts, trailing⟩ := by
    intro ts hts
    have h := Nesting.build_lexemesAll ts hts.symm [] [] [] (.ok trailing)
    rw [List.append_nil] at h
    rw [Lexing.tree, h, Nesting.build, List.append_nil, List.reverse_reverse]
  constructor
  · intro h
    rcases Nesting.build_faults Nesting.leaves_nil Lexeme.matched_nil [] lexemes trailing with
      hbrackets | ⟨d, innermost, pos, -, hfault⟩ | ⟨d, pos, -, hfault⟩
    · obtain ⟨ts, hts⟩ := Token.exists_of_wellBracketed hbrackets rfl
      rw [hbuild ts hts] at h
      cases h
      exact ⟨hts, rfl⟩
    · rw [Lexing.tree, hfault] at h
      cases h
    · rw [Lexing.tree, hfault] at h
      cases h
  · rintro ⟨hts, rfl⟩
    exact hbuild stream.tokens hts

/-- A text that divides into lexemes is a token tree if and only if its brackets are well bracketed,
and its trees are the only ones with these lexemes. Otherwise the first closing bracket that is not
the partner of the innermost open one is reported, and that partner, or the end of the text, was
expected; if there is no such bracket, the innermost one that is still open at the end is
reported. -/
theorem tokenize_brackets {t : Text} {lexemes : List Lexeme} {trailing : Text}
    (h : Lexing.ofText t = ⟨lexemes, .ok trailing⟩) :
    ((∃ stream, tokenize t = .ok stream) ↔ WellBracketed (lexemes.map Lexeme.glyph)) ∧
    (∀ stream, tokenize t = .ok stream ↔
      Token.lexemesAll stream.tokens = lexemes.map Lexeme.kept ∧ stream.trailing = trailing) ∧
    (¬ WellBracketed (lexemes.map Lexeme.glyph) →
      (∃ d innermost pos, Nesting.Unbalanced lexemes d innermost pos ∧
        tokenize t = .error (.lexical (.delimiterUnbalanced d innermost) pos) ∧
        (Fault.delimiterUnbalanced d innermost).expected =
          innermost.elim Fault.endOfInput fun o => [o.closing]) ∨
      ∃ d pos, Nesting.Unclosed lexemes d pos ∧
        tokenize t = .error (.lexical (.delimiterUnclosed d) pos)) := by
  have htree : tokenize t = (⟨lexemes, .ok trailing⟩ : Lexing).tree := congrArg Lexing.tree h
  rw [htree]
  refine ⟨⟨?_, ?_⟩, fun stream => Lexing.tree_eq_ok_iff, fun hbrackets => ?_⟩
  · rintro ⟨stream, hstream⟩
    rw [← Lexeme.map_glyph_kept, ← (Lexing.tree_eq_ok_iff.1 hstream).1]
    exact Token.wellBracketed_lexemesAll stream.tokens
  · intro hbrackets
    obtain ⟨ts, hts⟩ := Token.exists_of_wellBracketed hbrackets rfl
    exact ⟨⟨ts, trailing⟩, Lexing.tree_eq_ok_iff.2 ⟨hts, rfl⟩⟩
  · rcases Nesting.build_faults Nesting.leaves_nil Lexeme.matched_nil [] lexemes trailing with
      hgood | ⟨d, innermost, pos, hfirst, hfault⟩ | ⟨d, pos, hopen, hfault⟩
    · exact absurd hgood hbrackets
    · exact .inl ⟨d, innermost, pos, hfirst, hfault, by cases innermost <;> rfl⟩
    · exact .inr ⟨d, pos, hopen, hfault⟩

/-- The fault for which a text is no token tree. -/
def lexicalFault (t : Text) : Option Diagnostic :=
  match tokenize t with
  | .error d => some d
  | .ok _ => none

theorem lexicalFault_eq_some_iff {t : Text} {d : Diagnostic} :
    lexicalFault t = some d ↔ tokenize t = .error d := by
  unfold lexicalFault
  split
  · rename_i d' h
    rw [h, Option.some.injEq, Except.error.injEq]
  · rename_i stream h
    rw [h]
    simp

/-- Brackets in a string and in a comment do not count. The parenthesis is the innermost open bracket
where the brace comes. -/
theorem tokenize_brackets_brace :
    ∃ lexemes trailing,
      Lexing.ofText "f(\")\" /* ] */ [x]\n  \x7d" = ⟨lexemes, .ok trailing⟩ ∧
      ¬ WellBracketed (lexemes.map Lexeme.glyph) ∧
      Nesting.Unbalanced lexemes .brace (some .paren) ⟨2, 3⟩ := by
  have hfault : tokenize "f(\")\" /* ] */ [x]\n  \x7d" =
      .error (.lexical (.delimiterUnbalanced .brace (some .paren)) ⟨2, 3⟩) :=
    lexicalFault_eq_some_iff.1 (by decide +kernel)
  have hending : (Lexing.ofText "f(\")\" /* ] */ [x]\n  \x7d").ending.isOk = true := by
    decide +kernel
  cases hlexing : Lexing.ofText "f(\")\" /* ] */ [x]\n  \x7d" with
  | mk lexemes ending =>
    rw [hlexing] at hending
    cases ending with
    | error d => cases hending
    | ok trailing =>
      obtain ⟨hiff, -, hfaults⟩ := tokenize_brackets hlexing
      have hbrackets : ¬ WellBracketed (lexemes.map Lexeme.glyph) := fun hgood => by
        obtain ⟨stream, hstream⟩ := hiff.2 hgood
        rw [hfault] at hstream
        cases hstream
      refine ⟨lexemes, trailing, rfl, hbrackets, ?_⟩
      rcases hfaults hbrackets with ⟨d, innermost, pos, hfirst, herror, -⟩ | ⟨d, pos, -, herror⟩
      · rw [hfault] at herror
        cases herror
        exact hfirst
      · rw [hfault] at herror
        cases herror

end CondAttrs
