import CondAttrs.Proofs.Lexical.Excerpt

/-!
# The interpreter line in a changed text

Whether a text starts with an interpreter line depends on more than that line. Behind `#!`
trivia is read, and if a bracket comes next it is no interpreter line but an inner
attribute. The trivia may go on beyond the end of the line, and a block comment that is
opened in the line may be closed anywhere. So a change further down can turn the line into
something else, or make the text unreadable.

An interpreter line that leaves no comment open stays one if what follows it starts in the
same way: with the same line end, and with the same character behind its trivia.

## Main definitions

* `Trivia.significant`: the first character behind the trivia.
* `Trivia.contained`: a line leaves no comment open that is opened behind its marks.

## Main statements

* `Trivia.readShebang_stable`, `Trivia.readShebang_opening`: the interpreter line of a
  changed text.
* `Trivia.readShebang_of_ne`, `Trivia.readShebang_attribute`: texts without one.
* `tokenize_of_signs`: such a text is read as the tokens it was made of.
-/

namespace CondAttrs.Trivia

/-- The first character behind the trivia at the start of a text, if there is one; nothing
if the trivia cannot be read. -/
def significant (t : Text) : Option (Option Char) :=
  match read .start t with
  | .ok (_, rest) => some rest.head?
  | .error _ => none

theorem significant_of_read {p : Position} {t trivia rest : Text}
    (h : read p t = .ok (trivia, rest)) : significant t = some rest.head? := by
  rw [significant, read_position h .start]

theorem read_of_significant {t : Text} {c : Option Char} (h : significant t = some c)
    (p : Position) : ∃ trivia rest, read p t = .ok (trivia, rest) ∧ rest.head? = c := by
  unfold significant at h
  split at h
  · rename_i trivia rest hread
    exact ⟨trivia, rest, read_position hread p, Option.some.inj h⟩
  · cases h

theorem significant_of_stops {t : Text} (h : Stops t) : significant t = some t.head? :=
  significant_of_read (read_of_stops h .start)

theorem significant_closed {trivia rest : Text} (h : Closed trivia) (hrest : Stops rest) :
    significant (trivia ++ rest) = some rest.head? :=
  significant_of_read (h rest hrest .start)

theorem significant_final {trivia : Text} (h : Final trivia) : significant trivia = some none :=
  significant_of_read (h .start)

theorem significant_of_next {t text rest : Text} (hn : next t = .piece text rest) {c : Option Char}
    (h : significant rest = some c) : significant t = some c := by
  obtain ⟨trivia, after, hread, rfl⟩ := read_of_significant h (Position.start.after text)
  exact significant_of_read (read_of_next hn hread)

/-! ## Inside a line -/

/-- The characters that a line can end with are neither slashes nor exclamation marks. -/
theorem lineEnds_head {t : Text} (h : lineEnds t = true) :
    t.head? ≠ some '/' ∧ t.head? ≠ some '!' ∧ t.head? ≠ some '*' ∧ t.head? ≠ some '#' := by
  cases t with
  | nil => simp
  | cons c rest =>
    simp only [lineEnds, Bool.or_eq_true, Bool.and_eq_true, decide_eq_true_eq] at h
    rcases h with rfl | ⟨rfl, -⟩ <;> simp

theorem spanLine_tail {c : Char} {line rest : Text}
    (h : spanLine (c :: line ++ rest) = (c :: line, rest)) :
    spanLine (line ++ rest) = (line, rest) := by
  by_cases hend : lineEnds (c :: (line ++ rest)) = true
  · rw [List.cons_append, spanLine_of_lineEnds hend] at h
    cases h
  · rw [List.cons_append, spanLine_cons (Bool.eq_false_iff.2 hend)] at h
    simp only [Prod.mk.injEq, List.cons.injEq, true_and] at h
    exact Prod.ext h.1 h.2

theorem spanLine_suffix {first line rest : Text}
    (h : spanLine (first ++ line ++ rest) = (first ++ line, rest)) :
    spanLine (line ++ rest) = (line, rest) := by
  induction first with
  | nil => exact h
  | cons c first ih => exact ih (spanLine_tail h)

/-- Whether a comment in a line is documentation is decided in the line. -/
theorem docMarker_lineEnds (line : Text) {rest : Text} (h : lineEnds rest = true) :
    (DocMarker.read ('/' :: (line ++ rest))).isSome = (DocMarker.read ('/' :: line)).isSome := by
  obtain ⟨hslash, hbang, hstar, -⟩ := lineEnds_head h
  rcases line with _ | ⟨a, _ | ⟨b, _ | ⟨c, line⟩⟩⟩
  · rw [List.nil_append, docMarker_slash_none hslash hstar]
    rfl
  · cases rest with
    | nil => rfl
    | cons d rest =>
      have h₁ : d ≠ '/' := by simpa using hslash
      have h₂ : d ≠ '!' := by simpa using hbang
      have h₃ : d ≠ '*' := by simpa using hstar
      simp only [List.cons_append, List.nil_append]
      unfold DocMarker.read
      split <;> simp_all
  · simp only [List.cons_append, List.nil_append]
    unfold DocMarker.read
    split <;> simp_all
  · rw [docMarker_take, docMarker_take ('/' :: a :: b :: c :: line)]
    rfl

/-- A token that starts in a line starts there whatever follows the line. -/
theorem Stops.append_lineEnds {line rest : Text} (h : Stops line) (hrest : lineEnds rest = true) :
    Stops (line ++ rest) := by
  obtain ⟨x, line, rfl⟩ := List.exists_cons_of_ne_nil h.1
  have hblank := h.head_not_blank
  rw [List.cons_append]
  by_cases hslash : x = '/'
  · subst hslash
    cases hdoc : DocMarker.read ('/' :: line) with
    | some m =>
      refine stops_of_docMarker ?_ hblank
      rw [docMarker_lineEnds line hrest, hdoc]
      rfl
    | none =>
      obtain ⟨h₁, h₂⟩ := (stops_slash_iff hdoc).1 h
      obtain ⟨h₁', -, h₂', -⟩ := lineEnds_head hrest
      have hhead : (line ++ rest).head? ≠ some '/' ∧ (line ++ rest).head? ≠ some '*' := by
        cases line with
        | nil => exact ⟨h₁', h₂'⟩
        | cons y line => exact ⟨h₁, h₂⟩
      exact (stops_slash_iff (docMarker_slash_none hhead.1 hhead.2)).2 hhead
  · exact stops_of_ne hslash hblank _

/-- No line ends before its end. -/
theorem eq_nil_of_lineEnds {line rest : Text} (h : spanLine (line ++ rest) = (line, rest))
    (hends : lineEnds line = true) : line = [] := by
  cases line with
  | nil => rfl
  | cons x line =>
    have hends' : lineEnds (x :: (line ++ rest)) = true := by
      simp only [lineEnds, Bool.or_eq_true, Bool.and_eq_true, decide_eq_true_eq] at hends ⊢
      refine hends.imp_right (And.imp_right fun hhead => ?_)
      rw [List.head?_append, hhead]
      rfl
    rw [List.cons_append, spanLine_of_lineEnds hends'] at h
    cases h

/-- A piece of trivia that is read in a line is read there whatever follows the line. -/
theorem Made.append_line {text after rest : Text} (h : Made text after)
    (hline : spanLine (text ++ after ++ rest) = (text ++ after, rest)) :
    Made text (after ++ rest) := by
  have hafter := spanLine_suffix hline
  by_cases hends : lineEnds after = true
  · -- the piece goes on to the end of the line, so that a line comment ends there too
    obtain rfl := eq_nil_of_lineEnds hafter hends
    rw [List.append_nil] at hline
    cases h with
    | blank hc => exact .blank hc
    | @line body _ hdoc _ =>
      refine .line ?_ (spanLine_tail (spanLine_tail hline))
      have hsome := docMarker_lineEnds ('/' :: body) (lineEnds_of_spanLine hline)
      rw [List.append_nil] at hdoc
      rw [hdoc] at hsome
      exact Option.isNone_iff_eq_none.1 (Option.isSome_eq_false_iff.1 hsome)
    | block hdoc hbody => exact .block (docMarker_block _ hdoc) (blockBody_stable hbody _)
  · exact h.stable fun hends' => absurd hends' hends

/-- What comes behind the trivia of a line that leaves no comment open depends on what comes
behind the line. -/
theorem significant_line {line rest rest' : Text}
    (h : spanLine (line ++ rest) = (line, rest)) (h' : spanLine (line ++ rest') = (line, rest'))
    (hclosed : (significant line).isSome = true) {c : Option Char}
    (hs : significant rest = some c) (hs' : significant rest' = some c) :
    ∃ d, significant (line ++ rest) = some d ∧ significant (line ++ rest') = some d := by
  obtain ⟨d, hd⟩ := Option.isSome_iff_exists.1 hclosed
  obtain ⟨trivia, after, hread, -⟩ := read_of_significant hd .start
  clear hclosed hd
  generalize Position.start = p at hread
  -- by induction on the pieces of trivia in the line
  fun_induction read p line generalizing trivia after with
  | case1 p line hstop =>
    cases line with
    | nil => exact ⟨c, hs, hs'⟩
    | cons x line =>
      have hstops : Stops (x :: line) := ⟨List.cons_ne_nil x line, hstop⟩
      exact ⟨some x, significant_of_stops (hstops.append_lineEnds (lineEnds_of_spanLine h)),
        significant_of_stops (hstops.append_lineEnds (lineEnds_of_spanLine h'))⟩
  | case2 => cases hread
  | case3 => cases hread
  | case4 p line text behind hnext more after' hread' ih =>
    obtain rfl := next_append hnext
    have hmade := made_of_next hnext
    obtain ⟨d, hd, hd'⟩ := ih (spanLine_suffix h) (spanLine_suffix h') _ _ hread'
    have hpiece := (hmade.append_line h).next
    have hpiece' := (hmade.append_line h').next
    rw [← List.append_assoc] at hpiece hpiece'
    exact ⟨d, significant_of_next hpiece hd, significant_of_next hpiece' hd'⟩

/-! ## Texts without an interpreter line -/

theorem readShebang_of_ne {t : Text} (h : ∀ more, t ≠ '#' :: '!' :: more) :
    readShebang t = .ok ([], t) := by
  unfold readShebang
  split
  · rename_i more
    exact absurd rfl (h more)
  · rfl

theorem readShebang_mark {more line rest : Text} {c : Option Char}
    (h : readShebang more = .ok (line, rest)) (hs : significant rest = some c) :
    readShebang ('#' :: '!' :: more) =
      .ok (if c = some '[' then ([], '#' :: '!' :: more) else spanLine ('#' :: '!' :: more)) := by
  obtain ⟨trivia, after, hread, rfl⟩ := read_of_significant hs (Position.start.after line)
  rw [readShebang, h]
  simp only [hread]
  split
  · rename_i heq
    cases heq
  · rename_i heq
    cases heq
    simp
  · rename_i hne heq
    cases heq
    rw [if_neg]
    intro hc
    obtain ⟨rest, rfl⟩ := List.head?_eq_some_iff.1 hc
    exact hne _ rfl

theorem Closed.head_ne_hash {c : Char} {trivia : Text} (h : Closed (c :: trivia)) : c ≠ '#' := by
  rintro rfl
  rcases h.head with hblank | hslash
  · revert hblank
    decide
  · cases hslash

/-- A text that starts with trivia has none. -/
theorem readShebang_closed {trivia rest : Text} (h : Closed trivia)
    (hrest : ∀ more, rest ≠ '#' :: '!' :: more) :
    readShebang (trivia ++ rest) = .ok ([], trivia ++ rest) := by
  refine readShebang_of_ne fun more hmore => ?_
  cases trivia with
  | nil => exact hrest more hmore
  | cons c trivia => exact h.head_ne_hash (List.cons.inj hmore).1

/-- An inner attribute at the start is no interpreter line. -/
theorem readShebang_attribute {trivia : Text} (h : Closed trivia) (rest : Text) :
    readShebang ('#' :: '!' :: (trivia ++ '[' :: rest)) =
      .ok ([], '#' :: '!' :: (trivia ++ '[' :: rest)) := by
  have hstops : Stops ('[' :: rest) := stops_of_ne (by decide) (by decide) rest
  rw [readShebang_mark (readShebang_closed h (by simp)) (significant_closed h hstops)]
  rfl

/-- Nor is any attribute behind trivia. -/
theorem readShebang_hash {trivia rest : Text} (h : Closed trivia)
    (hrest : rest.head? = some '!' → ∃ more, rest = '!' :: '[' :: more) :
    readShebang (trivia ++ '#' :: rest) = .ok ([], trivia ++ '#' :: rest) := by
  by_cases hbang : rest.head? = some '!'
  · obtain ⟨more, rfl⟩ := hrest hbang
    cases trivia with
    | nil => exact readShebang_attribute closed_nil more
    | cons c trivia => exact readShebang_of_ne fun t ht => h.head_ne_hash (List.cons.inj ht).1
  · refine readShebang_closed h fun more hmore => hbang ?_
    rw [(List.cons.inj hmore).2]
    rfl

/-- A text that starts with the marks of an inner attribute and is no interpreter line goes
on with a bracket, unless another pair of marks follows. -/
theorem significant_of_readShebang {more : Text} {c : Option Char}
    (h : readShebang ('#' :: '!' :: more) = .ok ([], '#' :: '!' :: more))
    (hmore : ∀ rest, more ≠ '#' :: '!' :: rest) (hs : significant more = some c) :
    c = some '[' := by
  rw [readShebang_mark (readShebang_of_ne hmore) hs] at h
  by_cases hc : c = some '['
  · exact hc
  · have hline : lineEnds ('#' :: '!' :: more) = false := by simp [lineEnds]
    rw [if_neg hc, spanLine_cons hline] at h
    cases h

/-! ## The interpreter line -/

/-- A text without the marks at its start. -/
def unmarked : Text → Text
  | '#' :: '!' :: more => unmarked more
  | t => t

/-- Whether the trivia behind the marks of a line can be read in the line: no comment that is
opened there goes on behind the line. -/
def contained (line : Text) : Bool :=
  (significant (unmarked line)).isSome

theorem significant_of_contained {line : Text} (h : contained line = true) :
    (significant line).isSome = true := by
  unfold contained unmarked at h
  split at h
  · rw [significant_of_stops (stops_of_ne (by decide) (by decide) _)]
    rfl
  · exact h

/-- Judging the start of a line leads to the same division whatever follows the line. -/
theorem readShebang_line {line rest rest' : Text} {c : Option Char}
    (hs : significant rest = some c) (hs' : significant rest' = some c)
    (h : spanLine (line ++ rest) = (line, rest)) (h' : spanLine (line ++ rest') = (line, rest'))
    (hline : contained line = true) :
    ∃ front back, line = front ++ back ∧ (front = [] ∨ back = []) ∧
      readShebang (line ++ rest) = .ok (front, back ++ rest) ∧
      readShebang (line ++ rest') = .ok (front, back ++ rest') := by
  induction hn : line.length using Nat.strongRecOn generalizing line with
  | ind n ih =>
    by_cases hstart : ∃ more, line = '#' :: '!' :: more
    · obtain ⟨line, rfl⟩ := hstart
      have hspan := spanLine_tail (spanLine_tail h)
      have hspan' := spanLine_tail (spanLine_tail h')
      have hline' : contained line = true := by rwa [contained, unmarked] at hline
      obtain ⟨front, back, rfl, hwhole, hfront, hfront'⟩ :=
        ih line.length (by simp only [List.length_cons] at hn; omega) hspan hspan' hline' rfl
      -- what is judged behind the mark ends with the line, so the verdict is the same
      have hback : (significant back).isSome = true := by
        rcases hwhole with rfl | rfl
        · exact significant_of_contained hline'
        · rw [significant_final final_nil]
          rfl
      obtain ⟨d, hd, hd'⟩ :=
        significant_line (spanLine_suffix hspan) (spanLine_suffix hspan') hback hs hs'
      have hread := readShebang_mark hfront hd
      have hread' := readShebang_mark hfront' hd'
      simp only [List.cons_append] at h h' ⊢
      rw [hread, hread', h, h']
      split
      · exact ⟨[], '#' :: '!' :: (front ++ back), rfl, .inl rfl, by simp, by simp⟩
      · exact ⟨'#' :: '!' :: (front ++ back), [], by simp, .inr rfl, by simp, by simp⟩
    · have hne : ∀ {t : Text}, spanLine (line ++ t) = (line, t) →
          ∀ more, line ++ t ≠ '#' :: '!' :: more := by
        intro t ht more hmore
        obtain ⟨-, hbang, -, hhash⟩ := lineEnds_head (lineEnds_of_spanLine ht)
        rcases line with _ | ⟨x, _ | ⟨y, line⟩⟩
        · rw [List.nil_append] at hmore
          exact hhash (by rw [hmore]; rfl)
        · have hmore' : t = '!' :: more := (List.cons.inj hmore).2
          exact hbang (by rw [hmore']; rfl)
        · simp only [List.cons_append, List.cons.injEq] at hmore
          exact hstart ⟨line, by rw [hmore.1, hmore.2.1]⟩
      exact ⟨[], line, rfl, .inl rfl, readShebang_of_ne (hne h), readShebang_of_ne (hne h')⟩

theorem spanLine_of_readShebang {t line rest : Text} (hne : line ≠ [])
    (h : readShebang t = .ok (line, rest)) : spanLine t = (line, rest) := by
  unfold readShebang at h
  split at h
  · split at h
    · cases h
    · split at h
      · cases h
      · cases h
        exact absurd rfl hne
      · exact Except.ok.inj h
  · cases h
    exact absurd rfl hne

theorem marks_of_readShebang {t line rest : Text} (hne : line ≠ [])
    (h : readShebang t = .ok (line, rest)) : ∃ more, line = '#' :: '!' :: more := by
  by_cases hmarks : ∃ more, t = '#' :: '!' :: more
  · obtain ⟨more, rfl⟩ := hmarks
    have hspan := spanLine_of_readShebang hne h
    rw [spanLine_cons rfl, spanLine_cons rfl] at hspan
    exact ⟨_, (Prod.mk.inj hspan).1.symm⟩
  · rw [readShebang_of_ne fun more hmore => hmarks ⟨more, hmore⟩] at h
    cases h
    exact absurd rfl hne

/-- An interpreter line that leaves no comment open stays one if the text behind it starts in
the same way. -/
theorem readShebang_stable {line rest rest' : Text} (hne : line ≠ [])
    (h : readShebang (line ++ rest) = .ok (line, rest)) (hline : contained line = true)
    (hhead : rest'.head? = rest.head?) (hend : lineEnds rest = true → lineEnds rest' = true)
    {c : Option Char} (hs : significant rest = some c) (hs' : significant rest' = some c) :
    readShebang (line ++ rest') = .ok (line, rest') := by
  have hspan : spanLine (line ++ rest) = (line, rest) := spanLine_of_readShebang hne h
  have hspan' : spanLine (line ++ rest') = (line, rest') :=
    spanLine_stable hspan hhead (hend (lineEnds_of_spanLine hspan))
  obtain ⟨front, back, hdivide, -, hfront, hfront'⟩ := readShebang_line hs hs' hspan hspan' hline
  rw [h] at hfront
  simp only [Except.ok.injEq, Prod.mk.injEq] at hfront
  obtain ⟨rfl, hback⟩ := hfront
  obtain rfl : back = [] := by simpa using hdivide
  exact hfront'

/-- In particular if what follows starts with the same trivia and the same character. -/
theorem readShebang_opening {line leading rest rest' : Text} {c : Char} (hne : line ≠ [])
    (h : readShebang (line ++ (leading ++ c :: rest)) = .ok (line, leading ++ c :: rest))
    (hline : contained line = true) (hl : Closed leading) (hs : Stops (c :: rest))
    (hs' : Stops (c :: rest')) :
    readShebang (line ++ (leading ++ c :: rest')) = .ok (line, leading ++ c :: rest') := by
  refine readShebang_stable hne h hline ?_ ?_ (significant_closed hl hs)
    (significant_closed hl hs')
  · cases leading <;> rfl
  · intro hend
    exact (lineEnds_append_of_stops hs (c :: rest') hend).2.2

end CondAttrs.Trivia

namespace CondAttrs

/-- Tokens that run at the end of a text are read back, if no interpreter line can be meant. -/
theorem tokenize_of_signs {ts : List Token} (hruns : Runs (Token.signsAll ts) [])
    (hmark : ∀ more, Token.renderAll ts ≠ '#' :: '!' :: more) :
    ∃ stream, tokenize (Token.renderAll ts) = .ok stream ∧ stream.trailing = [] ∧
      Token.forgetAll stream.tokens = Token.forgetAll ts := by
  have hline : Trivia.readShebang (Token.renderAll ts) =
      .ok ([], (⟨ts, []⟩ : TokenStream).render) := by
    rw [Trivia.readShebang_of_ne hmark, TokenStream.render, List.append_nil]
  obtain ⟨stream, htokenize, htrailing, htokens⟩ :=
    tokenize_of_runs hline ⟨hruns, Trivia.final_nil⟩
  rw [TokenStream.prepend_nil] at htrailing htokens
  exact ⟨stream, htokenize, htrailing, htokens⟩

end CondAttrs
