import CondAttrs.Proofs.Lexical.Excerpt
import CondAttrs.Proofs.Reading.Cell

/-!
# Paths in new surroundings

An attribute that is written again has the same path at its head, and so the same name. Its
tokens have met new neighbours, which may change the joint of the last one; the reader of
paths asks for the joint of a token only if two more follow.

## Main definitions

* `AttributePath.Alike`: the reader of paths cannot tell two token lists apart.

## Main statements

* `AttributePath.Alike.name`: the names are the same.
* `AttributePath.split_excerpt`: a path that is taken out and put in front of a group is
  found again.
-/

namespace CondAttrs

namespace AttributePath

/-- The two lists look the same, but for the joint of the last token. -/
inductive Alike : List Token → List Token → Prop where
  | nil : Alike [] []
  | last {t t' : Token} (h : (t.rejoin []).face = (t'.rejoin []).face) : Alike [t] [t']
  | cons {t t' : Token} {ts ts' : List Token} (ht : t.face = t'.face) (h : Alike ts ts') :
      Alike (t :: ts) (t' :: ts')

theorem ident?_rejoin (rest : Text) (t : Token) : (t.rejoin rest).ident? = t.ident? := by
  cases t with
  | group => rfl
  | atom leading pos a => cases a <;> rfl

theorem rejoin_rejoin (rest rest' : Text) (t : Token) :
    (t.rejoin rest).rejoin rest' = t.rejoin rest' := by
  cases t with
  | group => rfl
  | atom leading pos a => cases a <;> rfl

theorem face_rejoin_withLeading (rest leading : Text) (t : Token) :
    ((t.withLeading leading).rejoin rest).face = (t.rejoin rest).face := by
  cases t <;> rfl

theorem face_withLeading (leading : Text) (t : Token) : (t.withLeading leading).face = t.face := by
  cases t <;> rfl

theorem name_congr {path path' : List Token}
    (h : path'.map Token.ident? = path.map Token.ident?) : name path' = name path := by
  have hmap : ∀ path : List Token,
      path.filterMap Token.ident? = (path.map Token.ident?).filterMap id := by
    intro path
    rw [List.filterMap_map]
    rfl
  rw [name, name, hmap, hmap, h]

namespace Alike

variable {ts ts' : List Token}

theorem of_face (h : ts.map Token.face = ts'.map Token.face) : Alike ts ts' := by
  induction ts generalizing ts' with
  | nil =>
    obtain rfl : ts' = [] := by simpa using h.symm
    exact .nil
  | cons t ts ih =>
    cases ts' with
    | nil => cases h
    | cons t' ts' =>
      simp only [List.map_cons, List.cons.injEq] at h
      exact .cons h.1 (ih h.2)

/-- An excerpt looks like what it was taken from. -/
theorem excerpt (rest : Text) (ts : List Token) : Alike ts (Token.excerpt rest ts) := by
  have hlast : ∀ ts : List Token, Alike ts (Token.rejoinLast rest ts) := by
    intro ts
    fun_induction Token.rejoinLast rest ts with
    | case1 => exact .nil
    | case2 t => exact .last (by rw [rejoin_rejoin])
    | case3 t u more ih => exact .cons rfl ih
  rcases ts with _ | ⟨t, _ | ⟨u, more⟩⟩
  · exact .nil
  · refine .last ?_
    exact (face_rejoin_withLeading [] _ t).symm.trans (congrArg Token.face (rejoin_rejoin rest [] _).symm)
  · exact .cons (face_withLeading _ t).symm (hlast (u :: more))

theorem ident? (h : Alike ts ts') : ts'.map Token.ident? = ts.map Token.ident? := by
  induction h with
  | nil => rfl
  | last h =>
    rw [List.map_cons, List.map_cons, ← ident?_rejoin [], ← Token.ident?_face h, ident?_rejoin]
  | cons ht _ ih => rw [List.map_cons, List.map_cons, Token.ident?_face ht, ih]

theorem length (h : Alike ts ts') : ts'.length = ts.length := by
  have := congrArg List.length h.ident?
  simpa using this

theorem three {first second segment : Token} {rest : List Token}
    (h : Alike (first :: second :: segment :: rest) ts') :
    ∃ first' second' segment' rest', ts' = first' :: second' :: segment' :: rest' ∧
      first.face = first'.face ∧ second.face = second'.face ∧
      segment'.isIdent = segment.isIdent ∧ Alike rest rest' := by
  cases h with
  | cons hf h =>
    cases h with
    | cons hs h =>
      cases h with
      | last hg =>
        refine ⟨_, _, _, [], rfl, hf, hs, ?_, .nil⟩
        rw [Token.isIdent, Token.isIdent, ← ident?_rejoin [], ← Token.ident?_face hg, ident?_rejoin]
      | cons hg h => exact ⟨_, _, _, _, rfl, hf, hs, (Token.isIdent_face hg).symm, h⟩

theorem length_spanSegments (h : Alike ts ts') :
    (spanSegments ts').1.length = (spanSegments ts).1.length := by
  fun_induction spanSegments ts generalizing ts' with
  | case1 first second segment rest hsep ih =>
    obtain ⟨first', second', segment', rest', rfl, hf, hs, hi, hr⟩ := h.three
    rw [isSeparator_face hf hs, ← hi] at hsep
    simp only [spanSegments, hsep, ↓reduceIte, List.length_cons, ih hr]
  | case2 first second segment rest hsep =>
    obtain ⟨first', second', segment', rest', rfl, hf, hs, hi, hr⟩ := h.three
    rw [isSeparator_face hf hs, ← hi] at hsep
    simp only [spanSegments, hsep]
    rfl
  | case3 tokens hshort =>
    have hnone : ∀ first second segment rest, ts' ≠ first :: second :: segment :: rest := by
      rintro first second segment rest rfl
      have hlength := h.length
      rcases tokens with _ | ⟨a, _ | ⟨b, _ | ⟨c, more⟩⟩⟩
      · cases hlength
      · cases hlength
      · cases hlength
      · exact hshort a b c more rfl
    rw [spanSegments.eq_2 ts' hnone]

theorem length_split (h : Alike ts ts') : (split ts').1.length = (split ts).1.length := by
  have hsegments := h.length_spanSegments
  have hident := h.ident?
  rcases ts with _ | ⟨t, ts⟩
  · obtain rfl : ts' = [] := by simpa using hident
    rfl
  rcases ts' with _ | ⟨t', ts'⟩
  · cases hident
  have hhead : t'.isIdent = t.isIdent := by
    simp only [List.map_cons, List.cons.injEq] at hident
    rw [Token.isIdent, hident.1, Token.isIdent]
  simp only [split, hhead]
  split
  · have htail : Alike ts ts' := by
      cases h with
      | last => exact .nil
      | cons _ h => exact h
    rw [List.length_cons, List.length_cons, htail.length_spanSegments]
  · exact hsegments

/-- Lists that look alike have paths of the same name. -/
theorem name (h : Alike ts ts') : name (split ts').1 = name (split ts).1 := by
  have htake : ∀ ts : List Token, (split ts).1 = ts.take (split ts).1.length :=
    fun ts => List.prefix_iff_eq_take.1 ⟨_, split_append ts⟩
  refine name_congr ?_
  rw [htake ts', htake ts, List.map_take, List.map_take, h.ident?, h.length_split]

end Alike

theorem spanSegments_concat (ts : List Token) (t : Token) :
    spanSegments ((spanSegments ts).1 ++ [t]) = ((spanSegments ts).1, [t]) := by
  fun_induction spanSegments ts with
  | case1 first second segment rest hsep ih =>
    simp only [List.cons_append, spanSegments, hsep, ↓reduceIte, ih]
  | case2 => rfl
  | case3 => rfl

theorem spanSegments_head {ts more : List Token} {first : Token}
    (h : (spanSegments ts).1 = first :: more) : first.isIdent = false := by
  unfold spanSegments at h
  split at h
  · rename_i colon second segment rest
    split at h
    · rename_i hsep
      obtain rfl : colon = first := (List.cons.inj h).1
      simp only [isSeparator, Bool.and_eq_true] at hsep
      obtain ⟨leading, pos, rfl⟩ := Token.isJoint_iff.1 hsep.1.1
      rfl
    · cases h
  · cases h

/-- A path is found again in front of what is no identifier. -/
theorem split_concat (ts : List Token) {t : Token} (ht : t.isIdent = false) :
    split ((split ts).1 ++ [t]) = ((split ts).1, [t]) := by
  have hone : split [t] = ([], [t]) := by
    rw [split, ht]
    rfl
  cases ts with
  | nil => exact hone
  | cons head rest =>
    by_cases hhead : head.isIdent = true
    · have hsplit : (split (head :: rest)).1 = head :: (spanSegments rest).1 := by
        rw [split, if_pos hhead]
      rw [hsplit, List.cons_append, split, if_pos hhead, spanSegments_concat rest t]
    · have hsplit : (split (head :: rest)).1 = (spanSegments (head :: rest)).1 := by
        rw [split, if_neg hhead]
      have hsegments := spanSegments_concat (head :: rest) t
      rw [hsplit]
      cases hs : (spanSegments (head :: rest)).1 with
      | nil => exact hone
      | cons first more =>
        rw [hs] at hsegments
        rw [List.cons_append, split, spanSegments_head hs]
        exact hsegments

/-- The last token of a path is an identifier. -/
theorem getLast?_spanSegments {ts : List Token} {t : Token}
    (h : (spanSegments ts).1.getLast? = some t) : t.isIdent = true := by
  fun_induction spanSegments ts with
  | case1 first second segment rest hsep ih =>
    simp only [Bool.and_eq_true] at hsep
    cases hm : (spanSegments rest).1 with
    | nil =>
      rw [hm] at h
      cases h
      exact hsep.2
    | cons u more =>
      rw [List.getLast?_cons_cons, List.getLast?_cons_cons, hm, List.getLast?_cons_cons, ← hm] at h
      exact ih h
  | case2 => cases h
  | case3 => cases h

theorem getLast?_split {ts : List Token} {t : Token} (h : (split ts).1.getLast? = some t) :
    t.isIdent = true := by
  cases ts with
  | nil => cases h
  | cons head rest =>
    by_cases hhead : head.isIdent = true
    · rw [split, if_pos hhead] at h
      cases hm : (spanSegments rest).1 with
      | nil =>
        rw [hm] at h
        cases h
        exact hhead
      | cons u more =>
        rw [hm, List.getLast?_cons_cons, ← hm] at h
        exact getLast?_spanSegments h
    · rw [split, if_neg hhead] at h
      exact getLast?_spanSegments h

theorem face_rejoinLast (rest : Text) {path : List Token}
    (h : ∀ t, path.getLast? = some t → t.isIdent = true) :
    (Token.rejoinLast rest path).map Token.face = path.map Token.face := by
  fun_induction Token.rejoinLast rest path with
  | case1 => rfl
  | case2 t =>
    have ht := h t rfl
    cases t with
    | group => rfl
    | atom leading pos a => cases a <;> first | rfl | cases ht
  | case3 t u more ih =>
    refine congrArg (t.face :: ·) (ih fun v hv => h v ?_)
    rwa [List.getLast?_cons_cons]

/-- The excerpt of a path looks the same, because it ends with an identifier. -/
theorem face_excerpt (rest : Text) {path : List Token}
    (h : ∀ t, path.getLast? = some t → t.isIdent = true) :
    (Token.excerpt rest path).map Token.face = path.map Token.face := by
  have htrim : (Token.trimFirst path).map Token.face = path.map Token.face := by
    cases path with
    | nil => rfl
    | cons t more => rw [Token.trimFirst, List.map_cons, List.map_cons, face_withLeading]
  have hlast : ∀ t, (Token.trimFirst path).getLast? = some t → t.isIdent = true := by
    intro t ht
    have hface := congrArg List.getLast? htrim
    rw [List.getLast?_map, List.getLast?_map, ht] at hface
    obtain ⟨u, hu, hut⟩ := Option.map_eq_some_iff.1 hface.symm
    rw [← Token.isIdent_face hut]
    exact h u hu
  rw [Token.excerpt, face_rejoinLast rest hlast, htrim]

/-- The excerpt of a path is found again in front of what is no identifier. -/
theorem split_excerpt (rest : Text) (ts : List Token) {t : Token} (ht : t.isIdent = false) :
    split (Token.excerpt rest (split ts).1 ++ [t]) = (Token.excerpt rest (split ts).1, [t]) := by
  have hface := face_excerpt rest (fun _ h => getLast?_split h : ∀ u, (split ts).1.getLast? = some u → _)
  have halike : Alike ((split ts).1 ++ [t]) (Token.excerpt rest (split ts).1 ++ [t]) := by
    refine .of_face ?_
    rw [List.map_append, List.map_append, hface]
  have hlength := halike.length_split
  rw [split_concat ts ht] at hlength
  have hpath : (split ts).1.length = (Token.excerpt rest (split ts).1).length := by
    rw [(Alike.excerpt rest (split ts).1).length]
  exact Prod.ext_iff.2 (List.append_inj (split_append _) (hlength.trans hpath))

end AttributePath

end CondAttrs
