import CondAttrs.Proofs.Reading.Cell
import CondAttrs.Token.Tree

/-!
# Lists of generic parameters

Angle brackets are matched by a count with one token of look-behind. The lists that are taken in
this way are those of a nested grammar: between the brackets stand tokens, arrows and further
bracketed lists. A `>` behind a joint `-` or `=` belongs to the arrow, so it closes nothing, and a
`>` that closes a list never stands there.

Since nothing between the brackets starts with `>`, the look-behind matters only where a list
closes. The count comes back to its old value behind everything that may stand between brackets
(`spanClosing_inside`). Conversely, what is taken while `n + 1` brackets are open is something that
may stand between brackets, a closing bracket, and what is taken under the other `n`
(`exists_parted`).

## Main definitions

* `Angle.Encloses`, `Angle.Inside`, `Angle.IsGenericList`: the grammar.

## Main statements

* `Angle.spanClosing_inside`, `Angle.exists_parted`: the count follows the grammar.
* `Take.generics_eq_ok_iff`: the lists that are taken are those of the grammar.
-/

namespace CondAttrs

namespace Angle

/-! ## The grammar -/

/-- The two tokens are brackets around `inner`: the second one is no head of an arrow. -/
structure Encloses (opening : Token) (inner : List Token) (closing : Token) : Prop where
  opens : opening.isPunct '<' = true
  closes : closing.isPunct '>' = true
  noArrow : startsArrow (opening :: inner).getLast? = false

/-- What may stand between angle brackets. -/
inductive Inside : List Token → Prop where
  | nil : Inside []
  /-- A token that is no angle bracket. -/
  | token {t : Token} {rest : List Token} (hopen : t.isPunct '<' = false)
      (hclose : t.isPunct '>' = false) (hrest : Inside rest) : Inside (t :: rest)
  /-- An arrow. -/
  | arrow {shaft head : Token} {rest : List Token} (hshaft : startsArrow (some shaft) = true)
      (hhead : head.isPunct '>' = true) (hrest : Inside rest) : Inside (shaft :: head :: rest)
  /-- A list in angle brackets. -/
  | angles {opening closing : Token} {inner rest : List Token}
      (h : Encloses opening inner closing) (hinner : Inside inner) (hrest : Inside rest) :
      Inside (opening :: (inner ++ closing :: rest))

/-- A list of generic parameters, with its brackets. -/
def IsGenericList (list : List Token) : Prop :=
  ∃ opening inner closing, Encloses opening inner closing ∧ Inside inner ∧
    list = opening :: (inner ++ [closing])

/-! ## Single tokens -/

theorem isPunct_ne {t : Token} {c d : Char} (h : t.isPunct c = true) (hne : c ≠ d) :
    t.isPunct d = false := by
  obtain ⟨leading, pos, joint, rfl⟩ := Token.isPunct_iff.1 h
  simp [Token.isPunct, hne]

theorem startsArrow_of_isPunct {t : Token} {c : Char} (h : t.isPunct c = true) (hminus : c ≠ '-')
    (hequals : c ≠ '=') : startsArrow (some t) = false := by
  obtain ⟨leading, pos, joint, rfl⟩ := Token.isPunct_iff.1 h
  simp [startsArrow, Token.isJoint, hminus, hequals]

theorem isPunct_of_startsArrow {t : Token} {c : Char} (h : startsArrow (some t) = true)
    (hminus : c ≠ '-') (hequals : c ≠ '=') : t.isPunct c = false := by
  rw [← Bool.not_eq_true]
  intro hc
  rw [startsArrow_of_isPunct hc hminus hequals] at h
  cases h

theorem step_opening {t : Token} (h : t.isPunct '<' = true) (previous : Option Token)
    (depth : Nat) : step previous t depth = depth + 1 := by
  simp [step, h]

theorem step_closing {previous : Option Token} {t : Token} (h : t.isPunct '>' = true)
    (harrow : startsArrow previous = false) (depth : Nat) : step previous t depth = depth - 1 := by
  simp [step, isPunct_ne h (show '>' ≠ '<' by decide), h, harrow]

/-- A token that is no bracket leaves the count as it is, and so does the head of an arrow. -/
theorem step_same {previous : Option Token} {t : Token} (hopen : t.isPunct '<' = false)
    (hclose : t.isPunct '>' = true → startsArrow previous = true) (depth : Nat) :
    step previous t depth = depth := by
  by_cases hgt : t.isPunct '>' = true
  · simp [step, hopen, hgt, hclose hgt]
  · simp [step, hopen, hgt]

/-! ## Counting follows the grammar -/

/-- The token in front of what follows a list. -/
theorem getLast?_append_cons (first : List Token) (t : Token) (second : List Token)
    (previous : Token) :
    (first ++ t :: second).getLast?.getD previous = second.getLast?.getD t := by
  rw [List.getLast?_append, List.getLast?_cons]
  rfl

theorem Encloses.noArrow_getD {opening closing : Token} {inner : List Token}
    (h : Encloses opening inner closing) :
    startsArrow (some (inner.getLast?.getD opening)) = false := by
  rw [← List.getLast?_cons]
  exact h.noArrow

/-- A token that does not close the last bracket is taken. -/
theorem spanClosing_cons {previous t : Token} {depth next : Nat}
    (hstep : step (some previous) t depth = next) (hnext : next ≠ 0) (rest : List Token) :
    spanClosing previous depth (t :: rest) =
      (spanClosing t next rest).map fun (inside, after) => (t :: inside, after) := by
  rw [spanClosing, hstep, if_neg hnext]

theorem exists_of_spanClosing_cons {previous t : Token} {depth next : Nat}
    {rest inside after : List Token}
    (h : spanClosing previous depth (t :: rest) = some (inside, after))
    (hstep : step (some previous) t depth = next) (hnext : next ≠ 0) :
    ∃ taken, inside = t :: taken ∧ spanClosing t next rest = some (taken, after) := by
  rw [spanClosing_cons hstep hnext] at h
  simp only [Option.map_eq_some_iff, Prod.mk.injEq, Prod.exists] at h
  obtain ⟨taken, _, hspan, rfl, rfl⟩ := h
  exact ⟨taken, rfl, hspan⟩

/-- What may stand between brackets is taken, and the count is the same behind it. -/
theorem spanClosing_inside {inner : List Token} (h : Inside inner) (previous : Token) {depth : Nat}
    (hdepth : depth ≠ 0) (rest : List Token) :
    spanClosing previous depth (inner ++ rest) =
      (spanClosing (inner.getLast?.getD previous) depth rest).map
        fun (inside, after) => (inner ++ inside, after) := by
  induction h generalizing previous depth rest with
  | nil => simp
  | @token t more hopen hclose _ ih =>
    have hstep : step (some previous) t depth = depth :=
      step_same hopen (by simp [hclose]) depth
    rw [List.cons_append, spanClosing_cons hstep hdepth, ih t hdepth, Option.map_map,
      ← List.nil_append (t :: more), getLast?_append_cons]
    rfl
  | @arrow shaft head more hshaft hhead _ ih =>
    have hfirst : step (some previous) shaft depth = depth := by
      refine step_same (isPunct_of_startsArrow hshaft (by decide) (by decide)) ?_ depth
      simp [isPunct_of_startsArrow hshaft (show '>' ≠ '-' by decide) (by decide)]
    have hsecond : step (some shaft) head depth = depth :=
      step_same (isPunct_ne hhead (by decide)) (fun _ => hshaft) depth
    rw [List.cons_append, spanClosing_cons hfirst hdepth, List.cons_append,
      spanClosing_cons hsecond hdepth, ih head hdepth, Option.map_map, Option.map_map,
      ← List.singleton_append, getLast?_append_cons]
    rfl
  | @angles opening closing inner more h _ _ ihinner ihmore =>
    -- one more bracket is open around `inner`, and the closing one takes it back
    have hfirst : step (some previous) opening depth = depth + 1 := step_opening h.opens _ depth
    have hlast : step (some (inner.getLast?.getD opening)) closing (depth + 1) = depth :=
      step_closing h.closes h.noArrow_getD (depth + 1)
    rw [List.cons_append, spanClosing_cons hfirst (Nat.succ_ne_zero depth), List.append_assoc,
      ihinner opening (Nat.succ_ne_zero depth), List.cons_append, spanClosing_cons hlast hdepth,
      ihmore closing hdepth, Option.map_map, Option.map_map, Option.map_map, ← List.cons_append,
      getLast?_append_cons]
    congr 1
    funext result
    simp

/-- What is taken while `n + 1` brackets are open, divided at the first bracket that closes one of
them. In front of it stands something of the grammar; behind it goes on what is taken while `n`
brackets are open. -/
structure Parted (n : Nat) (previous : Token) (inside after inner : List Token) (closing : Token)
    (more : List Token) : Prop where
  split : inside = inner ++ closing :: more
  grammar : Inside inner
  closes : closing.isPunct '>' = true
  noArrow : startsArrow (some (inner.getLast?.getD previous)) = false
  last : n = 0 → more = []
  others : n ≠ 0 → spanClosing closing n (more ++ after) = some (more, after)

namespace Parted

variable {n : Nat} {previous t closing : Token} {inside after inner more : List Token}

theorem token (h : Parted n t inside after inner closing more) (hopen : t.isPunct '<' = false)
    (hclose : t.isPunct '>' = false) :
    Parted n previous (t :: inside) after (t :: inner) closing more where
  split := by rw [h.split, List.cons_append]
  grammar := .token hopen hclose h.grammar
  closes := h.closes
  noArrow := by
    rw [← List.nil_append (t :: inner), getLast?_append_cons]
    exact h.noArrow
  last := h.last
  others := h.others

theorem arrow {shaft : Token} (h : Parted n t inside after inner closing more)
    (hshaft : startsArrow (some shaft) = true) (hhead : t.isPunct '>' = true) :
    Parted n previous (shaft :: t :: inside) after (shaft :: t :: inner) closing more where
  split := by rw [h.split, List.cons_append, List.cons_append]
  grammar := .arrow hshaft hhead h.grammar
  closes := h.closes
  noArrow := by
    rw [← List.singleton_append, getLast?_append_cons]
    exact h.noArrow
  last := h.last
  others := h.others

/-- A list in brackets, which is what is taken up to the bracket that closes it, and what is taken
behind it. -/
theorem angles {closing' : Token} {inner' more' : List Token}
    (h : Parted (n + 1) t inside after inner closing more) (hopen : t.isPunct '<' = true)
    (h' : Parted n closing more after inner' closing' more') :
    Parted n previous (t :: inside) after (t :: (inner ++ closing :: inner')) closing' more' where
  split := by rw [h.split, h'.split, List.cons_append, List.append_assoc, List.cons_append]
  grammar := by
    refine .angles ⟨hopen, h.closes, ?_⟩ h.grammar h'.grammar
    rw [List.getLast?_cons]
    exact h.noArrow
  closes := h'.closes
  noArrow := by
    rw [← List.cons_append, getLast?_append_cons]
    exact h'.noArrow
  last := h'.last
  others := h'.others

end Parted

/-- The bracket that closes comes at once. -/
theorem parted_closing {n : Nat} {previous t : Token} {rest inside after : List Token}
    (h : spanClosing previous (n + 1) (t :: rest) = some (inside, after))
    (hclose : t.isPunct '>' = true) (harrow : startsArrow (some previous) = false) :
    ∃ more, Parted n previous inside after [] t more := by
  have hstep : step (some previous) t (n + 1) = n := step_closing hclose harrow (n + 1)
  by_cases hn : n = 0
  · subst hn
    rw [spanClosing, hstep, if_pos rfl, Option.some.injEq, Prod.mk.injEq] at h
    obtain ⟨rfl, rfl⟩ := h
    exact ⟨[], rfl, .nil, hclose, harrow, fun _ => rfl, fun hne => absurd rfl hne⟩
  · obtain ⟨more, rfl, hspan⟩ := exists_of_spanClosing_cons h hstep hn
    refine ⟨more, rfl, .nil, hclose, harrow, fun hzero => absurd hzero hn, fun _ => ?_⟩
    rw [spanClosing_append hspan]
    exact hspan

/-- What is taken under open brackets is divided at the first one that closes, if the first token
is no head of an arrow. -/
theorem exists_parted {n : Nat} {previous : Token} {tokens inside after : List Token}
    (h : spanClosing previous (n + 1) tokens = some (inside, after))
    (hfree : startsArrow (some previous) = false ∨
      tokens.head?.any (Token.isPunct '>') = false) :
    ∃ inner closing more, Parted n previous inside after inner closing more := by
  -- behind a bracketed list the argument goes on with a part of the tokens, not with their tail
  induction hlength : tokens.length using Nat.strongRecOn
    generalizing n previous tokens inside with
  | ind length ih =>
    subst hlength
    cases tokens with
    | nil => cases h
    | cons t rest =>
      by_cases hopen : t.isPunct '<' = true
      · obtain ⟨taken, rfl, hspan⟩ :=
          exists_of_spanClosing_cons h (step_opening hopen _ _) (Nat.succ_ne_zero _)
        obtain ⟨inner, closing, more, hlist⟩ :=
          ih rest.length (Nat.lt_succ_self _) hspan
            (.inl (startsArrow_of_isPunct hopen (by decide) (by decide))) rfl
        have hlt : (more ++ after).length < (t :: rest).length := by
          rw [← spanClosing_append hspan, hlist.split]
          simp only [List.length_append, List.length_cons]
          omega
        obtain ⟨inner', closing', more', hbehind⟩ :=
          ih _ hlt (hlist.others (Nat.succ_ne_zero n))
            (.inl (startsArrow_of_isPunct hlist.closes (by decide) (by decide))) rfl
        exact ⟨_, closing', more', hlist.angles hopen hbehind⟩
      rw [Bool.not_eq_true] at hopen
      by_cases hclose : t.isPunct '>' = true
      · have harrow : startsArrow (some previous) = false := by
          rcases hfree with hfree | hfree
          · exact hfree
          · rw [List.head?_cons, Option.any_some, hclose] at hfree
            cases hfree
        obtain ⟨more, hparted⟩ := parted_closing h hclose harrow
        exact ⟨[], t, more, hparted⟩
      rw [Bool.not_eq_true] at hclose
      have hstep : step (some previous) t (n + 1) = n + 1 :=
        step_same hopen (by simp [hclose]) (n + 1)
      obtain ⟨taken, rfl, hspan⟩ := exists_of_spanClosing_cons h hstep (Nat.succ_ne_zero n)
      by_cases hnext : startsArrow (some t) = false ∨ rest.head?.any (Token.isPunct '>') = false
      · obtain ⟨inner, closing, more, hparted⟩ :=
          ih rest.length (Nat.lt_succ_self _) hspan hnext rfl
        exact ⟨t :: inner, closing, more, hparted.token hopen hclose⟩
      -- an arrow, whose head is taken with its shaft
      rw [not_or, Bool.not_eq_false, Bool.not_eq_false] at hnext
      obtain ⟨hshaft, hfirst⟩ := hnext
      cases rest with
      | nil => cases hspan
      | cons head rest =>
        have hhead : head.isPunct '>' = true := hfirst
        have hsecond : step (some t) head (n + 1) = n + 1 :=
          step_same (isPunct_ne hhead (by decide)) (fun _ => hshaft) (n + 1)
        obtain ⟨taken, rfl, hbehind⟩ :=
          exists_of_spanClosing_cons hspan hsecond (Nat.succ_ne_zero n)
        have hlt : rest.length < (t :: head :: rest).length := by
          simp only [List.length_cons]
          omega
        obtain ⟨inner, closing, more, hparted⟩ :=
          ih rest.length hlt hbehind
            (.inl (startsArrow_of_isPunct hhead (by decide) (by decide))) rfl
        exact ⟨t :: head :: inner, closing, more, hparted.arrow hshaft hhead⟩

/-! ## Whole lists -/

/-- A list of the grammar is taken, whatever follows it. -/
theorem spanGenerics_of_isGenericList {list : List Token} (h : IsGenericList list)
    (rest : List Token) : spanGenerics (list ++ rest) = some (list, rest) := by
  obtain ⟨opening, inner, closing, hencloses, hinner, rfl⟩ := h
  have hclosing : spanClosing (inner.getLast?.getD opening) 1 (closing :: rest) =
      some ([closing], rest) := by
    rw [spanClosing, step_closing hencloses.closes hencloses.noArrow_getD]
    rfl
  rw [List.cons_append, spanGenerics, if_pos hencloses.opens, List.append_assoc,
    List.singleton_append, spanClosing_inside hinner opening (by decide), hclosing]
  rfl

/-- What is taken is nothing or a list of the grammar. -/
theorem isGenericList_of_spanGenerics {tokens list rest : List Token}
    (h : spanGenerics tokens = some (list, rest)) (hne : list ≠ []) : IsGenericList list := by
  cases tokens with
  | nil =>
    simp only [spanGenerics, Option.some.injEq, Prod.mk.injEq] at h
    exact absurd h.1.symm hne
  | cons t more =>
    rw [spanGenerics] at h
    split at h
    · rename_i hopen
      simp only [Option.map_eq_some_iff, Prod.mk.injEq, Prod.exists] at h
      obtain ⟨taken, _, hspan, rfl, rfl⟩ := h
      obtain ⟨inner, closing, after, hparted⟩ :=
        exists_parted hspan (.inl (startsArrow_of_isPunct hopen (by decide) (by decide)))
      refine ⟨t, inner, closing, ⟨hopen, hparted.closes, ?_⟩, hparted.grammar, ?_⟩
      · rw [List.getLast?_cons]
        exact hparted.noArrow
      · rw [hparted.split, hparted.last rfl]
    · simp only [Option.some.injEq, Prod.mk.injEq] at h
      exact absurd h.1.symm hne

end Angle

/-- The lists of generic parameters that are taken off the front of a token list are the lists of
the grammar: such a list is taken as a whole in front of any tokens, and nothing else is taken. -/
theorem Take.generics_eq_ok_iff (tokens list rest : List Token) :
    Take.generics tokens = .ok (list, rest) ∧ list ≠ [] ↔
      Angle.IsGenericList list ∧ tokens = list ++ rest := by
  have hgenerics : Take.generics tokens = .ok (list, rest) ↔
      Angle.spanGenerics tokens = some (list, rest) := by
    rw [Take.generics]
    cases Angle.spanGenerics tokens <;> simp
  rw [hgenerics]
  constructor
  · rintro ⟨hspan, hne⟩
    exact ⟨Angle.isGenericList_of_spanGenerics hspan hne, (Angle.spanGenerics_append hspan).symm⟩
  · rintro ⟨hlist, rfl⟩
    refine ⟨Angle.spanGenerics_of_isGenericList hlist rest, ?_⟩
    obtain ⟨opening, inner, closing, -, -, rfl⟩ := hlist
    simp

/-- The arrow closes nothing, and three brackets in a row close three lists. -/
example :
    ((tokenize "<F: Fn(A) -> Vec<Vec<u8>>> (f: F)").toOption.bind fun stream =>
      (Angle.spanGenerics stream.tokens).map fun parts => Token.renderAll parts.1) =
      some "<F: Fn(A) -> Vec<Vec<u8>>>" := by
  decide +kernel

end CondAttrs
