import CondAttrs.Token.Trivia

/-!
# Trivia in other surroundings

A text is divided by looking ahead: a line comment ends where its line ends, and a
documentation marker is told from an ordinary comment by the characters behind it.
When a part of a text is moved, what follows it changes. This module says which
trivia can be moved.

Trivia in front of a token is *closed*: it is read as a whole, whatever token comes
behind it. The reason is that the line feed that ends a line comment is blank, so
that it belongs to the trivia too. Only the trivia at the end of a text may hold a
line comment that is still open.

## Main definitions

* `lineEnds`: whether a line ends at the start of a text.
* `Trivia.Stops`: a token starts here.
* `Trivia.Closed`: trivia that can stand in front of any token.

## Main statements

* `Trivia.read_closed`: trivia read in front of a token is closed.
* `Trivia.Closed.trimLeft`: and stays closed without the blanks at its start.
-/

namespace CondAttrs

/-! ## Line ends -/

/-- Whether a line ends where the text starts. -/
def lineEnds : Text → Bool
  | [] => true
  | c :: rest => c = '\n' || (c = '\r' && rest.head? = some '\n')

theorem spanLine_of_lineEnds {t : Text} (h : lineEnds t = true) : spanLine t = ([], t) := by
  cases t with
  | nil => rfl
  | cons c rest =>
    simp only [lineEnds] at h
    simp only [spanLine, h, ↓reduceIte]

theorem spanLine_cons {c : Char} {t : Text} (h : lineEnds (c :: t) = false) :
    spanLine (c :: t) = (c :: (spanLine t).1, (spanLine t).2) := by
  simp only [lineEnds] at h
  simp only [spanLine, h, Bool.false_eq_true, ↓reduceIte]

/-- Behind a line its end is found. -/
theorem lineEnds_spanLine (t : Text) : lineEnds (spanLine t).2 = true := by
  induction t with
  | nil => rfl
  | cons c rest ih =>
    by_cases h : lineEnds (c :: rest) = true
    · rw [spanLine_of_lineEnds h]
      exact h
    · rw [spanLine_cons (Bool.eq_false_iff.2 h)]
      exact ih

theorem lineEnds_of_spanLine {line rest : Text} (h : spanLine (line ++ rest) = (line, rest)) :
    lineEnds rest = true := by
  have := lineEnds_spanLine (line ++ rest)
  rwa [h] at this

/-- A line does not depend on what follows its end, as long as the end is the same. -/
theorem spanLine_stable {line rest rest' : Text} (h : spanLine (line ++ rest) = (line, rest))
    (hhead : rest'.head? = rest.head?) (hend : lineEnds rest' = true) :
    spanLine (line ++ rest') = (line, rest') := by
  induction line with
  | nil => exact spanLine_of_lineEnds hend
  | cons c line ih =>
    have hc : lineEnds (c :: (line ++ rest)) = false := by
      rw [Bool.eq_false_iff]
      intro hc
      rw [List.cons_append, spanLine_of_lineEnds hc] at h
      simp at h
    have hnext : (line ++ rest').head? = (line ++ rest).head? := by
      simp [List.head?_append, hhead]
    have hc' : lineEnds (c :: (line ++ rest')) = false := by
      simpa only [lineEnds, hnext] using hc
    rw [List.cons_append, spanLine_cons hc] at h
    simp only [Prod.mk.injEq, List.cons.injEq, true_and] at h
    rw [List.cons_append, spanLine_cons hc', ih (Prod.ext h.1 h.2)]

/-! ## Block comments -/

/-- A block comment does not depend on what follows it. -/
theorem blockBody_stable {depth : Nat} {t body after : Text}
    (h : blockBody depth t = some (body, after)) (after' : Text) :
    blockBody depth (body ++ '*' :: '/' :: after') = some (body, after') := by
  fun_induction blockBody depth t generalizing body with
  | case1 => simp at h
  | case2 depth rest ih =>
    simp only [Option.map_eq_some_iff, Prod.mk.injEq, Prod.exists] at h
    obtain ⟨b, a, hb, rfl, rfl⟩ := h
    simp [blockBody, ih hb]
  | case3 rest =>
    simp only [Option.some.injEq, Prod.mk.injEq] at h
    obtain ⟨rfl, rfl⟩ := h
    simp [blockBody]
  | case4 depth rest ih =>
    simp only [Option.map_eq_some_iff, Prod.mk.injEq, Prod.exists] at h
    obtain ⟨b, a, hb, rfl, rfl⟩ := h
    simp [blockBody, ih hb]
  | case5 depth c rest hopen hclose hclose' ih =>
    simp only [Option.map_eq_some_iff, Prod.mk.injEq, Prod.exists] at h
    obtain ⟨b, a, hb, rfl, rfl⟩ := h
    -- the character behind `c` is the same in both texts, so `c` opens and closes nothing
    have hhead : (b ++ '*' :: '/' :: after').head? = rest.head? := by
      rw [← blockBody_append hb]
      cases b <;> rfl
    have hstart : ∀ {d : Char} {r : Text}, b ++ '*' :: '/' :: after' = d :: r →
        ∃ r', rest = d :: r' := by
      intro d r hr
      exact List.head?_eq_some_iff.1 (by rw [← hhead, hr]; rfl)
    rw [List.cons_append, blockBody, ih hb]
    · rfl
    · intro r hc hr
      obtain ⟨r', hr'⟩ := hstart hr
      exact hopen r' hc hr'
    · intro r hd hc hr
      obtain ⟨r', hr'⟩ := hstart hr
      exact hclose r' hd hc hr'
    · intro d r hd hc hr
      obtain ⟨r', hr'⟩ := hstart hr
      exact hclose' d r' hd hc hr'

/-! ## Pieces of trivia -/

namespace Trivia

/-- The kinds of pieces of which trivia is made: `Made text rest` says that `text` is
one of them if `rest` follows. -/
inductive Made : Text → Text → Prop where
  | blank {c : Char} {rest : Text} (h : Text.isBlank c = true) : Made [c] rest
  | line {body rest : Text} (hdoc : DocMarker.read ('/' :: '/' :: (body ++ rest)) = none)
      (h : spanLine (body ++ rest) = (body, rest)) : Made ('/' :: '/' :: body) rest
  | block {body rest : Text}
      (hdoc : DocMarker.read ('/' :: '*' :: (body ++ '*' :: '/' :: rest)) = none)
      (h : blockBody 0 (body ++ '*' :: '/' :: rest) = some (body, rest)) :
      Made ('/' :: '*' :: (body ++ ['*', '/'])) rest

theorem isBlank_slash : Text.isBlank '/' = false := by decide

theorem made_of_next {t text rest : Text} (h : next t = .piece text rest) : Made text rest := by
  unfold next at h
  split at h
  · cases h
  split at h
  · rename_i hc
    cases h
    exact .blank hc
  split at h
  · cases h
  rename_i hdoc
  rw [Option.not_isSome_iff_eq_none] at hdoc
  split at h
  · rename_i more _
    cases h
    have hl := spanLine_append more
    refine .line ?_ ?_
    · rw [hl]; exact hdoc
    · rw [hl]
  · rename_i more _
    split at h
    · rename_i body after hb
      cases h
      have hl := blockBody_append hb
      refine .block ?_ ?_
      · rw [hl]; exact hdoc
      · rw [hl]; exact hb
    · cases h
  · cases h

theorem Made.next {text rest : Text} (h : Made text rest) :
    next (text ++ rest) = .piece text rest := by
  cases h with
  | blank h => simp [Trivia.next, h]
  | line hdoc h => simp [Trivia.next, isBlank_slash, hdoc, h]
  | block hdoc h => simp [Trivia.next, isBlank_slash, hdoc, h]

/-- The marker test sees four characters. -/
theorem docMarker_take (t : Text) :
    (DocMarker.read t).isSome = (DocMarker.read (t.take 4)).isSome := by
  rcases t with _ | ⟨a, _ | ⟨b, _ | ⟨c, _ | ⟨d, t⟩⟩⟩⟩ <;> try rfl
  simp only [List.take_succ_cons, List.take_zero]
  unfold DocMarker.read
  split
  · rename_i heq
    cases heq
    simp
    split <;> rfl
  · rename_i heq
    cases heq
    simp
  · rename_i heq
    cases heq
    simp
    split <;> rfl
  · rename_i heq
    cases heq
    simp
  · rename_i h₁ h₂ h₃ h₄
    split
    · rename_i heq
      cases heq
      exact (h₁ _ rfl).elim
    · rename_i heq
      cases heq
      exact (h₂ _ rfl).elim
    · rename_i heq
      cases heq
      exact (h₃ _ rfl).elim
    · rename_i heq
      cases heq
      exact (h₄ _ rfl).elim
    · rfl

theorem docMarker_none_congr {t t' : Text} (h : DocMarker.read t = none)
    (ht : t'.take 4 = t.take 4) : DocMarker.read t' = none := by
  have h' := docMarker_take t'
  rw [ht, ← docMarker_take t, h] at h'
  exact Option.isSome_eq_false_iff.1 h' |> Option.isNone_iff_eq_none.1

/-- The marker test of a line comment sees nothing behind the end of its line. -/
private theorem docMarker_line {body rest rest' : Text}
    (h : DocMarker.read ('/' :: '/' :: (body ++ rest)) = none) (hne : rest ≠ [])
    (hend : lineEnds rest = true) (hhead : rest'.head? = rest.head?) :
    DocMarker.read ('/' :: '/' :: (body ++ rest')) = none := by
  obtain ⟨c, r, rfl⟩ := List.exists_cons_of_ne_nil hne
  obtain ⟨r', rfl⟩ := List.head?_eq_some_iff.1 hhead
  rcases body with _ | ⟨x, _ | ⟨y, body⟩⟩
  · -- the third character ends the line
    have hc : c ≠ '/' ∧ c ≠ '!' := by
      constructor <;> (rintro rfl; simp [lineEnds] at hend)
    unfold DocMarker.read
    split <;> simp_all
  · exact docMarker_none_congr h (by simp)
  · exact docMarker_none_congr h (by simp)

theorem docMarker_block {body rest : Text} (rest' : Text)
    (h : DocMarker.read ('/' :: '*' :: (body ++ '*' :: '/' :: rest)) = none) :
    DocMarker.read ('/' :: '*' :: (body ++ '*' :: '/' :: rest')) = none := by
  refine docMarker_none_congr h ?_
  rcases body with _ | ⟨x, _ | ⟨y, body⟩⟩ <;> simp

/-- A piece stays one when the text behind it changes, as long as a line that ends
there still ends there. -/
theorem Made.stable {text rest rest' : Text} (h : Made text rest)
    (hl : lineEnds rest = true → rest ≠ [] ∧ rest'.head? = rest.head? ∧ lineEnds rest' = true) :
    Made text rest' := by
  cases h with
  | blank h => exact .blank h
  | @line body _ hdoc h =>
    have hend := lineEnds_of_spanLine h
    obtain ⟨hne, hhead, hend'⟩ := hl hend
    exact .line (docMarker_line hdoc hne hend hhead) (spanLine_stable h hhead hend')
  | block hdoc h => exact .block (docMarker_block rest' hdoc) (blockBody_stable h rest')

/-! ## Closed trivia -/

/-- A token starts where the text starts. -/
def Stops (t : Text) : Prop :=
  t ≠ [] ∧ Trivia.next t = .stop

/-- Trivia that is read as a whole in front of any token. -/
def Closed (trivia : Text) : Prop :=
  ∀ rest, Stops rest → ∀ p, read p (trivia ++ rest) = .ok (trivia, rest)

/-- Trivia that is read as a whole at the end of a text. -/
def Final (trivia : Text) : Prop :=
  ∀ p, read p trivia = .ok (trivia, [])

theorem Stops.head_not_blank {c : Char} {t : Text} (h : Stops (c :: t)) :
    Text.isBlank c = false := by
  rw [Bool.eq_false_iff]
  intro hc
  have := h.2
  simp [Trivia.next, hc] at this

theorem read_of_stops {t : Text} (h : Stops t) (p : Position) : read p t = .ok ([], t) := by
  rw [read]
  split
  · rfl
  · rename_i hn; rw [h.2] at hn; cases hn
  · rename_i hn; rw [h.2] at hn; cases hn

theorem read_of_next {t text rest more after : Text} {p : Position}
    (hn : Trivia.next t = .piece text rest) (hr : read (p.after text) rest = .ok (more, after)) :
    read p t = .ok (text ++ more, after) := by
  rw [read]
  split
  · rename_i h; rw [hn] at h; cases h
  · rename_i h; rw [hn] at h; cases h
  · rename_i h
    rw [hn] at h
    cases h
    rw [hr]

/-- Positions are carried along and decide nothing. -/
theorem read_position {p : Position} {t : Text} {result : Text × Text}
    (h : read p t = .ok result) (q : Position) : read q t = .ok result := by
  fun_induction read p t generalizing q result with
  | case1 p t hn =>
    rw [read]
    split
    · exact h
    · rename_i hn'; rw [hn] at hn'; cases hn'
    · rename_i hn'; rw [hn] at hn'; cases hn'
  | case2 => cases h
  | case3 => cases h
  | case4 p t text rest hn more after hr ih =>
    rw [← h]
    exact read_of_next hn (ih hr (q.after text))

theorem closed_nil : Closed [] := fun _ h p => read_of_stops h p

theorem final_nil : Final [] := fun p => by
  rw [read]
  rfl

theorem Closed.cons_blank {c : Char} {trivia : Text} (hc : Text.isBlank c = true)
    (h : Closed trivia) : Closed (c :: trivia) := by
  intro rest hrest p
  exact read_of_next (Made.blank hc).next (h rest hrest _)

theorem Closed.of_cons_blank {c : Char} {trivia : Text} (hc : Text.isBlank c = true)
    (h : Closed (c :: trivia)) : Closed trivia := by
  intro rest hrest p
  have hall := h rest hrest p
  have hn : Trivia.next (c :: (trivia ++ rest)) = .piece [c] (trivia ++ rest) :=
    (Made.blank hc).next
  rw [List.cons_append, read] at hall
  split at hall
  · rename_i hs; rw [hn] at hs; cases hs
  · cases hall
  · rename_i hs
    rw [hn] at hs
    cases hs
    split at hall
    · cases hall
    · rename_i hr
      simp only [List.singleton_append, Except.ok.injEq, Prod.mk.injEq, List.cons.injEq,
        true_and] at hall
      obtain ⟨rfl, rfl⟩ := hall
      exact read_position hr p

/-- Without the blanks at its start closed trivia stays closed. -/
theorem Closed.trimLeft {trivia : Text} (h : Closed trivia) : Closed (Text.trimLeft trivia) := by
  induction trivia with
  | nil => exact h
  | cons c trivia ih =>
    by_cases hc : Text.isBlank c = true
    · rw [Text.trimLeft, List.dropWhile_cons_of_pos hc]
      exact ih (h.of_cons_blank hc)
    · rw [Text.trimLeft, List.dropWhile_cons_of_neg hc]
      exact h

/-- Where trivia ends in front of a token, a line ends behind a piece only if its end
belongs to the trivia. -/
theorem lineEnds_append_of_stops {more t : Text} (ht : Stops t) (t' : Text)
    (h : lineEnds (more ++ t) = true) :
    more ++ t ≠ [] ∧ (more ++ t').head? = (more ++ t).head? ∧ lineEnds (more ++ t') = true := by
  have hblank : ∀ {u : Text}, Stops u → u.head? ≠ some '\n' := by
    intro u hu hnl
    obtain ⟨r, rfl⟩ := List.head?_eq_some_iff.1 hnl
    exact absurd hu.head_not_blank (by decide)
  obtain ⟨c, r, rfl⟩ := List.exists_cons_of_ne_nil ht.1
  have hc := ht.head_not_blank
  rcases more with _ | ⟨d, _ | ⟨e, more⟩⟩
  · simp only [List.nil_append, lineEnds, Bool.or_eq_true, decide_eq_true_eq,
      Bool.and_eq_true] at h
    rcases h with rfl | ⟨rfl, -⟩ <;> exact absurd hc (by decide)
  · simp only [List.cons_append, List.nil_append, lineEnds, Bool.or_eq_true, decide_eq_true_eq,
      Bool.and_eq_true] at h
    rcases h with rfl | ⟨-, hnl⟩
    · simp [lineEnds]
    · exact absurd hnl (hblank ht)
  · simpa [lineEnds] using h

/-- Trivia in front of a token is closed. -/
theorem read_closed {p : Position} {t trivia rest : Text}
    (h : read p t = .ok (trivia, rest)) (hne : rest ≠ []) : Closed trivia ∧ Stops rest := by
  fun_induction read p t generalizing trivia rest with
  | case1 p t hn =>
    simp only [Except.ok.injEq, Prod.mk.injEq] at h
    obtain ⟨rfl, rfl⟩ := h
    exact ⟨closed_nil, hne, hn⟩
  | case2 => cases h
  | case3 => cases h
  | case4 p t text after hn more rest' hr ih =>
    simp only [Except.ok.injEq, Prod.mk.injEq] at h
    obtain ⟨rfl, rfl⟩ := h
    obtain ⟨hclosed, hstops⟩ := ih hr hne
    refine ⟨?_, hstops⟩
    intro rest'' hrest'' q
    have hmade := made_of_next hn
    rw [← read_append hr] at hmade
    have hnext := (hmade.stable (lineEnds_append_of_stops hstops rest'')).next
    rw [List.append_assoc]
    exact read_of_next hnext (hclosed rest'' hrest'' _)

/-- Trivia that ends the text is read as a whole there. -/
theorem read_final {p : Position} {t trivia : Text} (h : read p t = .ok (trivia, [])) :
    trivia = t ∧ Final t := by
  have ht := read_append h
  rw [List.append_nil] at ht
  subst ht
  exact ⟨rfl, fun q => read_position h q⟩

end Trivia

end CondAttrs
