import CondAttrs.Proofs.Reading.Cell

/-!
# Members read in step

The division of a group into members, on both sides of a list of cells. The scan of a
member keeps the token before, the number of open angle brackets and whether a value
has begun; two scans are *level* if they agree on the last two and their tokens before
join the same punctuation. An attribute moves a scan to a level one, so that the members
of both sides are made of the same cells.

## Main definitions

* `Chunk.Progress.Level`: two scans agree.
* `Chunk.SplitsInStep`: the members of both sides are made of the same cells.

## Main statements

* `Chunk.splitFields_inStep`, `Chunk.splitMembers_inStep`.
* `Chunk.SplitsInStep.split_news`: members that are replaced cell by cell are the members
  of what results.
-/

namespace CondAttrs

theorem isPlainEquals_level {previous previous' next next' : Option Token} {t t' : Token}
    (hl : Level previous previous') (hf : t.face = t'.face)
    (hn : ∀ {p : Token → Bool}, Token.Selects p → next.any p = next'.any p) :
    isPlainEquals previous t next = isPlainEquals previous' t' next' := by
  have hprevious : ∀ o : Option Token,
      (o.any fun p => "<>!=+-*/%^&|".toList.any fun c => p.isJoint c) =
        "<>!=+-*/%^&|".toList.any fun c => o.any (Token.isJoint c) := by
    intro o
    cases o <;> rfl
  have hnext := hn ((Token.selects_isPunct (c := '=') (by decide)).or
    (Token.selects_isPunct (c := '>') (by decide)))
  simp only [isPlainEquals, Token.isPunct_face _ hf, Token.isJoint_face _ hf, hnext, hprevious]
  simp only [hl _]

theorem isPlainEquals_mark {t : Token} (ht : t.isMark = true) (previous next : Option Token) :
    isPlainEquals previous t next = false := by
  simp [isPlainEquals, (Token.halts_isPunct (c := '=') (by decide)).mark ht]

namespace Chunk

/-! ## Scans in step -/

namespace Progress

/-- The two scans know the same. -/
structure Level (p p' : Progress) : Prop where
  previous : CondAttrs.Level p.previous p'.previous
  depth : p.depth = p'.depth
  inValue : p.inValue = p'.inValue

theorem Level.refl (p : Progress) : Level p p := ⟨fun _ => rfl, rfl, rfl⟩

theorem Level.step {p p' : Progress} {t t' : Token} {next next' : Option Token} (h : Level p p')
    (hf : t.face = t'.face)
    (hn : ∀ {q : Token → Bool}, Token.Selects q → next.any q = next'.any q) :
    Level (p.step t next) (p'.step t' next') := by
  refine ⟨level_of_face hf, ?_, ?_⟩
  · simp only [Progress.step, h.depth, h.inValue, isPlainEquals_level h.previous hf hn,
      Angle.step_level h.previous hf]
  · simp only [Progress.step, h.depth, h.inValue, isPlainEquals_level h.previous hf hn]

/-- A mark changes nothing but the token before. -/
theorem step_mark {t : Token} (ht : t.isMark = true) (p : Progress) (next : Option Token) :
    p.step t next = { p with previous := some t } := by
  simp [Progress.step, isPlainEquals_mark ht, Angle.step_mark ht]

end Progress

/-! ## One member -/

theorem spanField_marks {marks : List Token} (hmarks : ∀ t ∈ marks, t.isMark = true)
    (p : Progress) (rest : List Token) :
    spanField p (marks ++ rest) =
      (marks ++ (spanField { p with previous := marks.getLast?.or p.previous } rest).1,
        (spanField { p with previous := marks.getLast?.or p.previous } rest).2) := by
  induction marks generalizing p with
  | nil => rfl
  | cons t marks ih =>
    obtain ⟨ht, hrest⟩ := List.forall_mem_cons.1 hmarks
    have hcomma := (Token.halts_isPunct (c := ',') (by decide)).mark ht
    simp only [List.cons_append, spanField, hcomma, Bool.and_false, Bool.false_eq_true,
      ↓reduceIte, Progress.step_mark ht, ih hrest]
    cases h : marks.getLast? with
    | none => rw [List.getLast?_eq_none_iff.1 h]; rfl
    | some l => rw [List.getLast?_cons, h]; rfl

theorem spanMember_marks {marks : List Token} (hmarks : ∀ t ∈ marks, t.isMark = true)
    (p : Progress) (rest : List Token) :
    spanMember p (marks ++ rest) =
      (marks ++ (spanMember { p with previous := marks.getLast?.or p.previous } rest).1,
        (spanMember { p with previous := marks.getLast?.or p.previous } rest).2) := by
  induction marks generalizing p with
  | nil => rfl
  | cons t marks ih =>
    obtain ⟨ht, hrest⟩ := List.forall_mem_cons.1 hmarks
    have hsemi := (Token.halts_isPunct (c := ';') (by decide)).mark ht
    have hbrace := (Token.halts_isGroup (d := .brace) (by decide)).mark ht
    simp only [List.cons_append, spanMember, hsemi, hbrace, Bool.and_false, Bool.false_eq_true,
      ↓reduceIte, Progress.step_mark ht, ih hrest]
    cases h : marks.getLast? with
    | none => rw [List.getLast?_eq_none_iff.1 h]; rfl
    | some l => rw [List.getLast?_cons, h]; rfl

/-- A field is the same cells on both sides. -/
theorem spanField_cuts {cells : List Cell} (hs : ∀ c ∈ cells, c.Sound) {p p' : Progress}
    (hp : p.Level p') :
    Cuts cells (spanField p (Cell.olds cells)) (spanField p' (Cell.news cells)) := by
  induction cells generalizing p p' with
  | nil => exact .stop []
  | cons c cells ih =>
    obtain ⟨hc, hrest⟩ := List.forall_mem_cons.1 hs
    cases c with
    | same t t' =>
      have hnext : ∀ {q : Token → Bool}, Token.Selects q →
          (Cell.olds cells).head?.any q = (Cell.news cells).head?.any q :=
        fun hq => Cell.head_any hq hrest
      simp only [Cell.olds_cons, Cell.news_cons, Cell.old, Cell.new, List.cons_append,
        List.nil_append, spanField, ← Token.isPunct_face _ hc, ← hp.depth]
      split
      · exact .pass (.same t t') (.stop cells)
      · exact .pass (.same t t') (ih hrest (hp.step hc hnext))
    | swap f f' =>
      obtain ⟨b, hlast, hb⟩ := hc.1.getLast?
      obtain ⟨b', hlast', hb'⟩ := hc.2.getLast?
      simp only [Cell.olds_cons, Cell.news_cons, Cell.old, Cell.new,
        spanField_marks hc.1.isMark, spanField_marks hc.2.isMark, hlast, hlast']
      exact .pass (.swap f f') (ih hrest ⟨level_of_bracket hb hb', hp.depth, hp.inValue⟩)

theorem spanSemicolon_cuts {cells : List Cell} (hs : ∀ c ∈ cells, c.Sound) :
    Cuts cells (spanSemicolon (Cell.olds cells)) (spanSemicolon (Cell.news cells)) := by
  cases cells with
  | nil => exact .stop []
  | cons c cells =>
    obtain ⟨hc, hrest⟩ := List.forall_mem_cons.1 hs
    cases c with
    | same t t' =>
      simp only [Cell.olds_cons, Cell.news_cons, Cell.old, Cell.new, List.cons_append,
        List.nil_append, spanSemicolon, ← Token.isPunct_face _ hc]
      split
      · exact .pass (.same t t') (.stop cells)
      · exact .stop (.same t t' :: cells)
    | swap f f' =>
      have hstop : ∀ {t : Token} (rest), t.isPunct '#' = true →
          spanSemicolon (t :: rest) = ([], t :: rest) := by
        intro t rest ht
        obtain ⟨_, _, _, rfl⟩ := Token.isPunct_iff.1 ht
        rfl
      exact .swap hstop hstop hc

/-- A trait member is the same cells on both sides. -/
theorem spanMember_cuts {cells : List Cell} (hs : ∀ c ∈ cells, c.Sound) {p p' : Progress}
    (hp : p.Level p') :
    Cuts cells (spanMember p (Cell.olds cells)) (spanMember p' (Cell.news cells)) := by
  induction cells generalizing p p' with
  | nil => exact .stop []
  | cons c cells ih =>
    obtain ⟨hc, hrest⟩ := List.forall_mem_cons.1 hs
    cases c with
    | same t t' =>
      have hnext : ∀ {q : Token → Bool}, Token.Selects q →
          (Cell.olds cells).head?.any q = (Cell.news cells).head?.any q :=
        fun hq => Cell.head_any hq hrest
      simp only [Cell.olds_cons, Cell.news_cons, Cell.old, Cell.new, List.cons_append,
        List.nil_append, spanMember, ← Token.isPunct_face _ hc, ← Token.isGroup_face _ hc,
        ← hp.depth, ← hp.inValue]
      split
      · exact .pass (.same t t') (.stop cells)
      split
      · exact .pass (.same t t') (spanSemicolon_cuts hrest)
      · exact .pass (.same t t') (ih hrest (hp.step hc hnext))
    | swap f f' =>
      obtain ⟨b, hlast, hb⟩ := hc.1.getLast?
      obtain ⟨b', hlast', hb'⟩ := hc.2.getLast?
      simp only [Cell.olds_cons, Cell.news_cons, Cell.old, Cell.new,
        spanMember_marks hc.1.isMark, spanMember_marks hc.2.isMark, hlast, hlast']
      exact .pass (.swap f f') (ih hrest ⟨level_of_bracket hb hb', hp.depth, hp.inValue⟩)

/-! ## All members -/

/-- The members of both sides are made of the same cells. -/
def SplitsInStep (split : List Token → List (List Token)) : Prop :=
  ∀ cells : List Cell, (∀ c ∈ cells, c.Sound) →
    ∃ chunks : List (List Cell), chunks.flatten = cells ∧
      chunks.map Cell.olds = split (Cell.olds cells) ∧
      chunks.map Cell.news = split (Cell.news cells)

/-- Divisions that repeat a span are made in step if the span is. -/
theorem splitsInStep_of_cuts {span : List Token → List Token × List Token}
    {split : List Token → List (List Token)} (hnil : split [] = [])
    (hsplit : ∀ t rest, split (t :: rest) = (span (t :: rest)).1 :: split (span (t :: rest)).2)
    (hne : ∀ t rest, (span (t :: rest)).1 ≠ [])
    (hcuts : ∀ cells : List Cell, (∀ c ∈ cells, c.Sound) →
      Cuts cells (span (Cell.olds cells)) (span (Cell.news cells))) :
    SplitsInStep split := by
  intro cells
  induction hn : cells.length using Nat.strongRecOn generalizing cells with
  | ind n ih =>
    intro hs
    cases cells with
    | nil => exact ⟨[], rfl, by simp [hnil], by simp [hnil]⟩
    | cons c more =>
      obtain ⟨own, rest, hcells, hold, hnew⟩ := hcuts (c :: more) hs
      have hstep : ∀ ts : List Token, ts ≠ [] →
          split ts = (span ts).1 :: split (span ts).2 := by
        intro ts hts
        obtain ⟨t, ts, rfl⟩ := List.exists_cons_of_ne_nil hts
        exact hsplit t ts
      have holds : Cell.olds (c :: more) ≠ [] := by simp [Cell.old_ne_nil]
      have hnews : Cell.news (c :: more) ≠ [] := by simp [Cell.new_ne_nil]
      have hown : own ≠ [] := by
        rintro rfl
        obtain ⟨t, ts, hts⟩ := List.exists_cons_of_ne_nil holds
        have := hne t ts
        rw [← hts, hold] at this
        exact this rfl
      have hlt : rest.length < n := by
        have := List.length_pos_iff.2 hown
        rw [← hn, hcells, List.length_append]
        omega
      have hsrest : ∀ c ∈ rest, c.Sound := fun c hc => hs c (by rw [hcells]; simp [hc])
      obtain ⟨chunks, hflat, ho, hw⟩ := ih rest.length hlt rest rfl hsrest
      refine ⟨own :: chunks, ?_, ?_, ?_⟩
      · rw [List.flatten_cons, hflat, hcells]
      · rw [hstep _ holds, hold, List.map_cons, ho]
      · rw [hstep _ hnews, hnew, List.map_cons, hw]

theorem splitFields_inStep : SplitsInStep splitFields := by
  refine splitsInStep_of_cuts (by rw [splitFields]) (fun t rest => by rw [splitFields])
    (fun t rest => ?_) fun cells hs => spanField_cuts hs (.refl {})
  simp only [spanField]
  split <;> simp

theorem splitMembers_inStep : SplitsInStep splitMembers := by
  refine splitsInStep_of_cuts (by rw [splitMembers]) (fun t rest => by rw [splitMembers])
    (fun t rest => ?_) fun cells hs => spanMember_cuts hs (.refl {})
  simp only [spanMember]
  split
  · simp
  · split <;> simp

/-- The members make up the tokens. -/
theorem SplitsInStep.flatten {split : List Token → List (List Token)} (h : SplitsInStep split)
    (tokens : List Token) : (split tokens).flatten = tokens := by
  obtain ⟨chunks, hflat, ho, -⟩ := h (Cell.refl tokens) (Cell.sound_refl tokens)
  rw [Cell.olds_refl] at ho
  rw [← ho, ← Cell.olds_flatten, hflat, Cell.olds_refl]

/-- Members that are replaced cell by cell are the members of what results. -/
theorem SplitsInStep.split_news {split : List Token → List (List Token)} (h : SplitsInStep split)
    {chunks : List (List Cell)} (hs : ∀ chunk ∈ chunks, ∀ c ∈ chunk, c.Sound)
    (hsplit : split (Cell.olds chunks.flatten) = chunks.map Cell.olds) :
    split (Cell.news chunks.flatten) = chunks.map Cell.news := by
  obtain ⟨chunks', hflat, ho, hn⟩ := h chunks.flatten (by simpa using fun c k hk hc => hs k hk c hc)
  have heq : chunks' = chunks := by
    rw [hsplit] at ho
    clear hn hsplit hs
    induction chunks' generalizing chunks with
    | nil =>
      cases chunks with
      | nil => rfl
      | cons => simp at ho
    | cons own chunks' ih =>
      cases chunks with
      | nil => simp at ho
      | cons own' chunks =>
        simp only [List.map_cons, List.cons.injEq] at ho
        obtain ⟨rfl, hrest⟩ := Cell.append_inj hflat ho.1
        rw [ih hrest ho.2]
  rw [← hn, heq]

end Chunk

end CondAttrs
