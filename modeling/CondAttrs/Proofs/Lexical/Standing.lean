import CondAttrs.Proofs.Lexical.Tree
import Mathlib.Data.Prod.Lex
import Mathlib.Order.Basic

/-!
# Where tokens stand

The positions of the tokens of a text. Every token stands behind what is in front of it: its
position is where the text in front of the token, its own trivia included, ends. So positions
grow in the order of the text, a group being followed by what it holds.

Flat lexing places the lexemes. Matching brackets keeps their places; the tokens of the groups
that are still open stand behind one another all the time.

## Main definitions

* `Token.StandsAll`: the tokens stand behind one another, from a given position on.
* `Token.positionsAll`: the positions of tokens at every depth, in order.

## Main statements

* `standsAll_of_tokenize`: the tokens of a text stand at their places.
* `Token.StandsAll.bounds`: their positions grow.
-/

namespace CondAttrs

/-! ## The order of positions -/

namespace Position

/-- Positions are compared by their lines, in one line by their columns. -/
instance : LinearOrder Position :=
  LinearOrder.lift' (fun p => toLex (p.line, p.col)) fun p q h => by
    cases p
    cases q
    cases h
    rfl

theorem lt_iff {p q : Position} :
    p < q ↔ p.line < q.line ∨ p.line = q.line ∧ p.col < q.col :=
  Prod.Lex.lt_iff

theorem lt_step (p : Position) (c : Char) : p < p.step c := by
  rw [lt_iff, step]
  split <;> simp

theorem le_after (p : Position) (t : Text) : p ≤ p.after t := by
  induction t generalizing p with
  | nil => exact le_refl p
  | cons c t ih => exact (p.lt_step c).le.trans (ih (p.step c))

theorem lt_after (p : Position) {t : Text} (h : t ≠ []) : p < p.after t := by
  cases t with
  | nil => exact absurd rfl h
  | cons c t => exact (p.lt_step c).trans_le (le_after _ t)

end Position

/-! ## Standing tokens -/

namespace Token

mutual

/-- The token stands at its position if what is in front of it ends at `p`. It takes some
text. -/
def Stands (p : Position) : Token → Prop
  | .atom leading pos a => pos = p.after leading ∧ a.text ≠ []
  | .group leading pos d children _ =>
    pos = p.after leading ∧ StandsAll (pos.step d.opening) children

/-- The tokens stand behind one another, the first one behind `p`. -/
def StandsAll (p : Position) : List Token → Prop
  | [] => True
  | t :: rest => Stands p t ∧ StandsAll (p.after t.render) rest

end

theorem standsAll_append {p : Position} {first second : List Token} :
    StandsAll p (first ++ second) ↔
      StandsAll p first ∧ StandsAll (p.after (renderAll first)) second := by
  induction first generalizing p with
  | nil => simp [StandsAll, renderAll]
  | cons t rest ih =>
    simp only [List.cons_append, StandsAll, ih, renderAll, Position.after_append, and_assoc]

mutual

/-- The positions of a token and of what it holds, in order. -/
def positions : Token → List Position
  | .atom _ pos _ => [pos]
  | .group _ pos _ children _ => pos :: positionsAll children

/-- The positions of tokens at every depth, in order. -/
def positionsAll : List Token → List Position
  | [] => []
  | t :: rest => positions t ++ positionsAll rest

end

theorem positionsAll_eq_flatMap (ts : List Token) : positionsAll ts = ts.flatMap positions := by
  induction ts with
  | nil => rfl
  | cons t rest ih => rw [positionsAll, ih, List.flatMap_cons]

theorem positionsAll_append (first second : List Token) :
    positionsAll (first ++ second) = positionsAll first ++ positionsAll second := by
  simp only [positionsAll_eq_flatMap, List.flatMap_append]

theorem positionsAll_subset {ts us : List Token} (h : ts ⊆ us) :
    positionsAll ts ⊆ positionsAll us := by
  intro p hp
  rw [positionsAll_eq_flatMap] at hp ⊢
  obtain ⟨t, ht, hp⟩ := List.mem_flatMap.1 hp
  exact List.mem_flatMap.2 ⟨t, h ht, hp⟩

theorem pos_mem_positions (t : Token) : t.pos ∈ t.positions := by
  cases t <;> simp [pos, positions]

theorem pos_mem_positionsAll {ts : List Token} {t : Token} (h : t ∈ ts) :
    t.pos ∈ positionsAll ts := by
  rw [positionsAll_eq_flatMap]
  exact List.mem_flatMap.2 ⟨t, h, t.pos_mem_positions⟩

theorem positionsAll_children_subset {ts : List Token} {t : Token} (h : t ∈ ts) :
    positionsAll t.children ⊆ positionsAll ts := by
  intro p hp
  rw [positionsAll_eq_flatMap]
  refine List.mem_flatMap.2 ⟨t, h, ?_⟩
  cases t with
  | atom => cases hp
  | group => exact List.mem_cons_of_mem _ hp

mutual

theorem Stands.bounds : ∀ {t : Token} {p : Position}, Stands p t →
    t.positions.Pairwise (· < ·) ∧ ∀ q ∈ t.positions, p ≤ q ∧ q < p.after t.render
  | .atom leading pos a, p, ⟨hpos, ha⟩ => by
    subst hpos
    refine ⟨List.pairwise_singleton _ _, fun q hq => ?_⟩
    obtain rfl := List.mem_singleton.1 hq
    rw [render, Position.after_append]
    exact ⟨p.le_after leading, Position.lt_after _ ha⟩
  | .group leading pos d children closeLeading, p, ⟨hpos, hchildren⟩ => by
    subst hpos
    obtain ⟨hpairwise, hinside⟩ := StandsAll.bounds hchildren
    have hopen := (p.after leading).lt_step d.opening
    refine ⟨List.pairwise_cons.2 ⟨fun q hq => hopen.trans_le (hinside q hq).1, hpairwise⟩, ?_⟩
    have hend : p.after (render (.group leading (p.after leading) d children closeLeading)) =
        (((p.after leading).step d.opening).after (renderAll children)).after
          (closeLeading ++ [d.closing]) := by
      rw [render, Position.after_append, Position.after_cons, Position.after_append]
    rw [hend]
    have hclose := Position.le_after (((p.after leading).step d.opening).after (renderAll children))
      (closeLeading ++ [d.closing])
    intro q hq
    rcases List.mem_cons.1 hq with rfl | hq
    · exact ⟨p.le_after leading, (hopen.trans_le (Position.le_after _ _)).trans_le hclose⟩
    · obtain ⟨hlow, hhigh⟩ := hinside q hq
      exact ⟨((p.le_after leading).trans hopen.le).trans hlow, hhigh.trans_le hclose⟩

/-- The positions of standing tokens grow, and stay between the two ends of their text. -/
theorem StandsAll.bounds : ∀ {ts : List Token} {p : Position}, StandsAll p ts →
    (positionsAll ts).Pairwise (· < ·) ∧
      ∀ q ∈ positionsAll ts, p ≤ q ∧ q < p.after (renderAll ts)
  | [], p, _ => ⟨List.Pairwise.nil, by simp [positionsAll]⟩
  | t :: rest, p, ⟨ht, hrest⟩ => by
    obtain ⟨hfirst, hin⟩ := Stands.bounds ht
    obtain ⟨hsecond, hin'⟩ := StandsAll.bounds hrest
    rw [positionsAll, renderAll, Position.after_append]
    refine ⟨List.pairwise_append.2 ⟨hfirst, hsecond, fun q hq q' hq' => ?_⟩, fun q hq => ?_⟩
    · exact (hin q hq).2.trans_le (hin' q' hq').1
    · rcases List.mem_append.1 hq with hq | hq
      · exact ⟨(hin q hq).1, (hin q hq).2.trans_le (Position.le_after _ _)⟩
      · exact ⟨(p.le_after _).trans (hin' q hq).1, (hin' q hq).2⟩

end

end Token

/-! ## Lexemes -/

/-- The lexemes stand behind one another, the first one behind `p`. -/
def Lexeme.StandAll (p : Position) : List Lexeme → Prop
  | [] => True
  | l :: rest => (l.pos = p.after l.leading ∧ l.glyph.text ≠ []) ∧ StandAll (p.after l.text) rest

theorem Lexing.standAll_scan (p : Position) (t : Text) : Lexeme.StandAll p (scan p t).lexemes := by
  fun_induction scan p t with
  | case1 => trivial
  | case2 => trivial
  | case3 => trivial
  | case4 p t leading c more htrivia glyph rest hglyph next ih =>
    refine ⟨⟨rfl, Glyph.read_ne_nil hglyph⟩, ?_⟩
    rw [Lexeme.text, Position.after_append]
    exact ih

/-- The lexemes of a text stand at their places, an interpreter line being trivia of the first. -/
theorem Lexing.standAll_ofText (t : Text) : Lexeme.StandAll .start (ofText t).lexemes := by
  rw [ofText]
  split
  · trivial
  · rename_i line rest hline
    have hscan := standAll_scan (Position.start.after line) rest
    cases h : scan (Position.start.after line) rest with
    | mk lexemes ending =>
      rw [h] at hscan
      cases lexemes with
      | nil => trivial
      | cons first more =>
        obtain ⟨⟨hpos, hglyph⟩, hmore⟩ := hscan
        rw [← Position.after_append] at hpos hmore
        refine ⟨⟨hpos, hglyph⟩, ?_⟩
        rwa [Lexeme.text, List.append_assoc]

/-! ## Trees -/

namespace Nesting

/-- The text of the groups that are still open and of the tokens in them. -/
def soFar (stack : List Open) (done : List Token) : Text :=
  Sign.textAll (pending stack done)

theorem soFar_nil (done : List Token) : soFar [] done = Token.renderAll done.reverse := by
  rw [soFar, pending, Token.textAll_signsAll]

theorem soFar_open (o : Open) (outer : List Open) (done : List Token) :
    soFar (o :: outer) done = soFar outer o.before ++ (o.leading ++
      (o.delimiter.opening :: Token.renderAll done.reverse)) := by
  simp [soFar, pending, Sign.textAll_append, Sign.textAll, Sign.text, Glyph.text,
    Token.textAll_signsAll]

theorem soFar_cons (stack : List Open) (done : List Token) (t : Token) :
    soFar stack (t :: done) = soFar stack done ++ t.render := by
  rw [soFar, pending_cons, Sign.textAll_append, Token.textAll_signs, soFar]

/-- The open groups and the tokens in them stand at their places. -/
def Standing (p : Position) : List Open → List Token → Prop
  | [], done => Token.StandsAll p done.reverse
  | o :: outer, done => Standing p outer o.before ∧
      o.pos = (p.after (soFar outer o.before)).after o.leading ∧
      Token.StandsAll (o.pos.step o.delimiter.opening) done.reverse

theorem Standing.push {p : Position} {stack : List Open} {done : List Token} {t : Token}
    (h : Standing p stack done) (ht : t.Stands (p.after (soFar stack done))) :
    Standing p stack (t :: done) := by
  cases stack with
  | nil =>
    rw [soFar_nil] at ht
    rw [Standing, List.reverse_cons, Token.standsAll_append]
    exact ⟨h, ht, trivial⟩
  | cons o outer =>
    obtain ⟨houter, hpos, hdone⟩ := h
    rw [soFar_open, Position.after_append, Position.after_append, ← hpos,
      Position.after_cons] at ht
    refine ⟨houter, hpos, ?_⟩
    rw [List.reverse_cons, Token.standsAll_append]
    exact ⟨hdone, ht, trivial⟩

/-- Matching brackets leaves the tokens at their places. -/
theorem standsAll_of_build {p : Position} {stack : List Open} {done : List Token}
    {lexemes : List Lexeme} {ending : Except Diagnostic Text} {stream : TokenStream}
    (hstack : Standing p stack done)
    (hlexemes : Lexeme.StandAll (p.after (soFar stack done)) lexemes)
    (h : build stack done lexemes ending = .ok stream) : Token.StandsAll p stream.tokens := by
  fun_induction build stack done lexemes ending with
  | case1 => cases h
  | case2 done trailing =>
    cases h
    exact hstack
  | case3 => cases h
  | case4 stack done leading pos a rest ending ih =>
    obtain ⟨hfirst, hrest⟩ := hlexemes
    refine ih (hstack.push hfirst) ?_ h
    rw [soFar_cons, Position.after_append]
    exact hrest
  | case5 stack done leading pos d rest ending ih =>
    obtain ⟨⟨hpos, -⟩, hrest⟩ := hlexemes
    refine ih ⟨hstack, hpos, trivial⟩ ?_ h
    rw [soFar_open, Position.after_append]
    exact hrest
  | case6 => cases h
  | case7 done leading pos rest ending innermost outer group ih =>
    obtain ⟨houter, hpos, hdone⟩ := hstack
    obtain ⟨-, hrest⟩ := hlexemes
    refine ih (houter.push ⟨hpos, hdone⟩) ?_ h
    have htext : soFar outer (group :: innermost.before) =
        soFar (innermost :: outer) done ++ (leading ++ [innermost.delimiter.closing]) := by
      rw [soFar_cons, soFar_open]
      simp [group, Token.render]
    rw [htext, Position.after_append]
    exact hrest
  | case8 => cases h

end Nesting

/-- The tokens of a text stand at their places. -/
theorem standsAll_of_tokenize {t : Text} {stream : TokenStream} (h : tokenize t = .ok stream) :
    Token.StandsAll .start stream.tokens := by
  have hempty : Nesting.Standing .start [] [] := trivial
  exact Nesting.standsAll_of_build hempty (Lexing.standAll_ofText t) h

end CondAttrs
