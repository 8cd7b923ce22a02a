import CondAttrs.Token.Lexeme

/-!
# Words and literals in other surroundings

How far a word or a literal reaches is decided by what follows it. A part of a text
that is moved meets new text there: most often a comma or a bracket, and where an
annotation is replaced, a hash that is followed by something else than before.
`Echoes old new` says that `new` can take the place of `old` behind any such token.
The two agree up to some place; there `new` goes on with a *seam*, one of the few
characters that end every token and start none that is longer than themselves.

## Main definitions

* `isSeam`, `Echoes`.

## Main statements

* `spanWord_echo`, `Literal.spanNumber_echo`, `Literal.readMarked_echo`: the extent of
  words, numbers and marked literals is the same in front of both texts.
-/

namespace CondAttrs

/-- The characters that may follow a part of a text in its new place. -/
def isSeam (c : Char) : Bool :=
  c = ',' || c = '(' || c = ')' || c = '[' || c = ']' || c = '!' || c = ':' || c = ' '

/-- What is decidable of a few characters is checked on them. -/
theorem forall_of_all {p : Char → Prop} [DecidablePred p] {l : List Char}
    (h : l.all (fun c => decide (p c)) = true) : ∀ c ∈ l, p c := by
  intro c hc
  exact of_decide_eq_true (List.all_eq_true.1 h c hc)

/-- There are few seams, so a decidable fact about seams is checked on them. -/
theorem forall_seam {p : Char → Prop} [DecidablePred p]
    (h : [',', '(', ')', '[', ']', '!', ':', ' '].all (fun c => decide (p c)) = true)
    {c : Char} (hc : isSeam c = true) : p c := by
  simp only [isSeam, Bool.or_eq_true, decide_eq_true_eq] at hc
  apply forall_of_all h
  simpa only [List.mem_cons, List.not_mem_nil, or_false, or_assoc] using hc

theorem isWordPart_seam {c : Char} (hc : isSeam c = true) : isWordPart c = false :=
  forall_seam (p := fun c => isWordPart c = false) (by decide) hc

/-- The text `new` may stand where `old` stood, behind any token that is no line of
documentation and no literal of two quotes. -/
inductive Echoes : Text → Text → Prop where
  | refl (t : Text) : Echoes t t
  | seam {old more : Text} {c : Char} (hc : isSeam c = true) : Echoes old (c :: more)
  | cons {old new : Text} (c : Char) (h : Echoes old new) : Echoes (c :: old) (c :: new)

namespace Echoes

variable {old new : Text}

theorem append (t : Text) (h : Echoes old new) : Echoes (t ++ old) (t ++ new) := by
  induction t with
  | nil => exact h
  | cons c t ih => exact .cons c ih

/-- The new text starts with a seam, or as the old text does. -/
theorem head (h : Echoes old new) :
    new.head? = old.head? ∨ ∃ c, new.head? = some c ∧ isSeam c = true := by
  cases h with
  | refl => exact .inl rfl
  | seam hc => exact .inr ⟨_, rfl, hc⟩
  | cons => exact .inl rfl

/-- A class of characters without seams that does not go on in the old text does not go
on in the new one. -/
theorem head_any {p : Char → Bool} (h : Echoes old new) (hp : ∀ c, isSeam c = true → p c = false)
    (hold : old.head?.any p = false) : new.head?.any p = false := by
  rcases h.head with hh | ⟨c, hh, hc⟩
  · rw [hh]; exact hold
  · rw [hh]; exact hp c hc

/-- What is no seam was there before. -/
theorem head_eq {c : Char} (h : Echoes old new) (hc : isSeam c = false)
    (hnew : new.head? = some c) : old.head? = some c := by
  rcases h.head with hh | ⟨d, hh, hd⟩
  · rw [← hh]; exact hnew
  · rw [hh] at hnew
    cases hnew
    rw [hd] at hc
    cases hc

theorem of_cons {c : Char} (h : Echoes old (c :: new)) (hc : isSeam c = false) :
    ∃ rest, old = c :: rest ∧ Echoes rest new := by
  cases h with
  | refl => exact ⟨new, rfl, .refl _⟩
  | seam hc' => rw [hc'] at hc; cases hc
  | cons _ h => exact ⟨_, rfl, h⟩

end Echoes

/-! ## Words -/

theorem spanWord_eq_iff {w rest : Text} :
    spanWord (w ++ rest) = (w, rest) ↔
      (∀ c ∈ w, isWordPart c = true) ∧ rest.head?.any isWordPart = false := by
  induction w with
  | nil =>
    cases rest with
    | nil => simp [spanWord]
    | cons c rest => by_cases hc : isWordPart c = true <;> simp [spanWord, hc]
  | cons c w ih =>
    by_cases hc : isWordPart c = true
    · simp only [spanWord, List.cons_append, List.takeWhile_cons_of_pos hc,
        List.dropWhile_cons_of_pos hc, Prod.mk.injEq, List.cons.injEq, true_and,
        List.mem_cons, forall_eq_or_imp, hc] at ih ⊢
      exact ih
    · simp [spanWord, hc]

theorem spanWord_echo {w old new : Text} (h : spanWord (w ++ old) = (w, old))
    (he : Echoes old new) : spanWord (w ++ new) = (w, new) := by
  rw [spanWord_eq_iff] at h ⊢
  exact ⟨h.1, he.head_any (fun _ => isWordPart_seam) h.2⟩

/-- What `spanWord` divides off is divided off again. -/
theorem spanWord_self (t : Text) : spanWord ((spanWord t).1 ++ (spanWord t).2) = spanWord t := by
  rw [spanWord_append]

namespace Literal

/-! ## Quoted literals -/

theorem quotedBody_cons {quote c : Char} {rest : Text} (hc : c ≠ '\\') :
    quotedBody quote (c :: rest) =
      if c = quote then some ([c], rest)
      else (quotedBody quote rest).map fun (body, after) => (c :: body, after) := by
  rw [quotedBody]
  · intro h; exact absurd h hc
  · intro _ _ h; exact absurd h hc

/-- A quoted literal does not depend on what follows its closing quote. -/
theorem quotedBody_stable {quote : Char} {t body after : Text}
    (h : quotedBody quote t = some (body, after)) (after' : Text) :
    quotedBody quote (body ++ after') = some (body, after') := by
  have hplain : ∀ {c : Char} {rest : Text}, (c = '\\' → rest = [] → False) →
      (∀ d r, c = '\\' → rest = d :: r → False) → c ≠ '\\' := by
    intro c rest hlast hesc hc
    cases rest with
    | nil => exact hlast hc rfl
    | cons d r => exact hesc d r hc rfl
  fun_induction quotedBody quote t generalizing body with
  | case1 => cases h
  | case2 => cases h
  | case3 c rest ih =>
    simp only [Option.map_eq_some_iff, Prod.mk.injEq, Prod.exists] at h
    obtain ⟨b, a, hb, rfl, rfl⟩ := h
    simp [quotedBody, ih hb]
  | case4 rest hlast hesc =>
    simp only [Option.some.injEq, Prod.mk.injEq] at h
    obtain ⟨rfl, rfl⟩ := h
    rw [List.cons_append, List.nil_append, quotedBody_cons (hplain hlast hesc), if_pos rfl]
  | case5 c rest hlast hesc hc ih =>
    simp only [Option.map_eq_some_iff, Prod.mk.injEq, Prod.exists] at h
    obtain ⟨b, a, hb, rfl, rfl⟩ := h
    rw [List.cons_append, quotedBody_cons (hplain hlast hesc), if_neg hc, ih hb]
    rfl

theorem quotedBody_ne_nil {quote : Char} {t body after : Text}
    (h : quotedBody quote t = some (body, after)) : body ≠ [] := by
  rintro rfl
  unfold quotedBody at h
  split at h
  · cases h
  · cases h
  · simp at h
  · split at h <;> simp at h

/-- A quoted literal is its opening, its body and a suffix. -/
theorem readQuoted_eq_ok_iff {opening rest text after : Text} {quote : Char} :
    readQuoted opening quote rest = .ok (text, after) ↔
      ∃ body suffix, quotedBody quote rest = some (body, suffix ++ after) ∧
        spanWord (suffix ++ after) = (suffix, after) ∧ text = opening ++ body ++ suffix := by
  unfold readQuoted
  constructor
  · intro h
    split at h
    · cases h
    · rename_i body a hb
      simp only [withSuffix, Except.ok.injEq, Prod.mk.injEq] at h
      obtain ⟨rfl, rfl⟩ := h
      exact ⟨body, (spanWord a).1, by rw [spanWord_append]; exact hb, spanWord_self a, rfl⟩
  · rintro ⟨body, suffix, hb, hs, rfl⟩
    rw [hb]
    simp only [withSuffix, hs]

theorem readQuoted_echo {opening t old new : Text} {quote : Char}
    (h : readQuoted opening quote (t ++ old) = .ok (opening ++ t, old)) (he : Echoes old new) :
    readQuoted opening quote (t ++ new) = .ok (opening ++ t, new) := by
  rw [readQuoted_eq_ok_iff] at h ⊢
  obtain ⟨body, suffix, hb, hs, ht⟩ := h
  rw [List.append_assoc, List.append_cancel_left_eq] at ht
  subst ht
  refine ⟨body, suffix, ?_, spanWord_echo hs he, by simp⟩
  rw [List.append_assoc]
  exact quotedBody_stable hb _

/-! ## Raw strings -/

/-- The first occurrence of a word does not depend on what follows it. -/
theorem splitAtWord_stable {word inside after : Text} (hword : word ≠ [])
    (h : Text.splitAtWord word (inside ++ word ++ after) = some (inside, after)) (after' : Text) :
    Text.splitAtWord word (inside ++ word ++ after') = some (inside, after') := by
  induction inside with
  | nil =>
    obtain ⟨c, w, rfl⟩ := List.exists_cons_of_ne_nil hword
    have hp : (c :: w).isPrefixOf ([] ++ (c :: w) ++ after') = true :=
      List.isPrefixOf_iff_prefix.2 (by simp)
    simp only [List.nil_append, List.cons_append] at hp ⊢
    rw [Text.splitAtWord, if_pos hp]
    simp
  | cons c inside ih =>
    simp only [List.cons_append, Text.splitAtWord] at h ⊢
    split at h
    · simp at h
    rename_i hnot
    simp only [Option.map_eq_some_iff, Prod.mk.injEq, List.cons.injEq, Prod.exists] at h
    obtain ⟨b, a, hs, ⟨-, rfl⟩, rfl⟩ := h
    -- the word is no longer than what stands in front of `after`
    have hnot' : ¬ word.isPrefixOf (c :: (b ++ word ++ after')) = true := by
      intro hp
      apply hnot
      rw [List.isPrefixOf_iff_prefix] at hp ⊢
      have hp' : word <+: (c :: (b ++ word)) ++ after' := by simpa using hp
      have hlen : word.length ≤ (c :: (b ++ word)).length := by
        simp only [List.length_cons, List.length_append]; omega
      have := List.prefix_of_prefix_length_le hp' (List.prefix_append _ _) hlen
      simpa using this.trans (List.prefix_append _ a)
    rw [if_neg hnot', ih hs]
    rfl

theorem rawOpening_replicate (hashes : Nat) (body : Text) :
    rawOpening (List.replicate hashes '#' ++ '"' :: body) = some (hashes, body) := by
  have htake : (List.replicate hashes '#' ++ '"' :: body).takeWhile (· = '#') =
      List.replicate hashes '#' := by
    rw [List.takeWhile_append_of_pos (by simp)]
    simp
  have hdrop : (List.replicate hashes '#' ++ '"' :: body).dropWhile (· = '#') = '"' :: body := by
    rw [List.dropWhile_append_of_pos (by simp)]
    simp
  unfold rawOpening
  rw [hdrop, htake]
  simp

theorem rawOpening_hash (t : Text) : (rawOpening ('#' :: t)).isSome = (rawOpening t).isSome := by
  simp only [rawOpening, List.dropWhile_cons, decide_true, ↓reduceIte]
  split <;> rfl

theorem rawOpening_cons {c : Char} (t : Text) (h : c ≠ '#') :
    (rawOpening (c :: t)).isSome = decide (c = '"') := by
  simp only [rawOpening, List.dropWhile_cons, h, decide_false, Bool.false_eq_true, ↓reduceIte]
  split
  · rename_i heq; cases heq; rfl
  · rename_i hne
    by_cases hc : c = '"'
    · exact absurd (by rw [hc]) (hne t)
    · simp [hc]

/-- Where no raw string opens, none opens in the new text. -/
theorem rawOpening_echo {old new : Text} (h : rawOpening old = none) (he : Echoes old new) :
    rawOpening new = none := by
  rw [← Option.not_isSome_iff_eq_none] at h ⊢
  induction he with
  | refl => exact h
  | seam hc =>
    have hne := forall_seam (p := fun c => c ≠ '#' ∧ c ≠ '"') (by decide) hc
    rw [rawOpening_cons _ hne.1]
    simp [hne.2]
  | cons c _ ih =>
    by_cases hc : c = '#'
    · subst hc
      rw [rawOpening_hash] at h ⊢
      exact ih h
    · rw [rawOpening_cons _ hc] at h ⊢
      exact h

theorem readRaw_eq_none_iff {mark t : Text} : readRaw mark t = .ok none ↔ rawOpening t = none := by
  unfold readRaw
  split
  · rename_i h; simp [h]
  · rename_i h
    rw [h]
    split <;> simp

/-- A raw string is its mark, its hashes, what they enclose and a suffix. -/
theorem readRaw_eq_some_iff {mark t text after : Text} :
    readRaw mark t = .ok (some (text, after)) ↔
      ∃ hashes inside suffix,
        t = List.replicate hashes '#' ++ '"' :: (inside ++ rawClosing hashes ++ (suffix ++ after)) ∧
        Text.splitAtWord (rawClosing hashes) (inside ++ rawClosing hashes ++ (suffix ++ after)) =
          some (inside, suffix ++ after) ∧
        spanWord (suffix ++ after) = (suffix, after) ∧
        text = mark ++ (List.replicate hashes '#' ++ '"' :: (inside ++ rawClosing hashes)) ++
          suffix := by
  unfold readRaw
  constructor
  · intro h
    split at h
    · cases h
    rename_i hashes body ho
    split at h
    · cases h
    rename_i inside a hs
    simp only [withSuffix, Except.ok.injEq, Option.some.injEq, Prod.mk.injEq] at h
    obtain ⟨rfl, rfl⟩ := h
    have hbody := Text.splitAtWord_append hs
    refine ⟨hashes, inside, (spanWord a).1, ?_, ?_, spanWord_self a, rfl⟩
    · rw [spanWord_append, hbody]
      exact (rawOpening_append ho).symm
    · rw [spanWord_append, hbody]
      exact hs
  · rintro ⟨hashes, inside, suffix, rfl, hs, hw, rfl⟩
    rw [rawOpening_replicate]
    simp only [hs, withSuffix, hw]

theorem readRaw_echo {mark t old new : Text}
    (h : readRaw mark (t ++ old) = .ok (some (mark ++ t, old))) (he : Echoes old new) :
    readRaw mark (t ++ new) = .ok (some (mark ++ t, new)) := by
  rw [readRaw_eq_some_iff] at h ⊢
  obtain ⟨hashes, inside, suffix, -, hs, hw, ht⟩ := h
  rw [List.append_assoc, List.append_cancel_left_eq] at ht
  subst ht
  refine ⟨hashes, inside, suffix, by simp, ?_, spanWord_echo hw he, by simp⟩
  exact splitAtWord_stable (by simp [rawClosing]) hs _

/-! ## Literals with a type letter -/

theorem map_some_eq_iff {ε α : Type} {e : Except ε α} {a : α} :
    e.map some = .ok (some a) ↔ e = .ok a := by
  cases e <;> simp [Except.map]

private theorem map_some_ne_none {ε α : Type} {e : Except ε α} : e.map some ≠ .ok none := by
  cases e <;> simp [Except.map]

/-- A marked literal has its mark and something behind it. -/
theorem readMarked_prefix {t text after : Text} (h : readMarked t = .ok (some (text, after))) :
    ∃ c d more, text = c :: d :: more := by
  unfold readMarked at h
  split at h
  · obtain ⟨_, _, _, -, -, -, rfl⟩ := readRaw_eq_some_iff.1 h
    exact ⟨_, _, _, rfl⟩
  · obtain ⟨_, _, _, -, -, -, rfl⟩ := readRaw_eq_some_iff.1 h
    exact ⟨_, _, _, rfl⟩
  · obtain ⟨hashes, _, _, -, -, -, rfl⟩ := readRaw_eq_some_iff.1 h
    cases hashes with
    | zero => exact ⟨_, _, _, rfl⟩
    | succ n => exact ⟨_, _, _, rfl⟩
  · obtain ⟨_, _, -, -, rfl⟩ := readQuoted_eq_ok_iff.1 (map_some_eq_iff.1 h)
    exact ⟨_, _, _, rfl⟩
  · obtain ⟨_, _, -, -, rfl⟩ := readQuoted_eq_ok_iff.1 (map_some_eq_iff.1 h)
    exact ⟨_, _, _, rfl⟩
  · obtain ⟨_, _, -, -, rfl⟩ := readQuoted_eq_ok_iff.1 (map_some_eq_iff.1 h)
    exact ⟨_, _, _, rfl⟩
  · cases h

theorem readMarked_echo {t old new : Text} (h : readMarked (t ++ old) = .ok (some (t, old)))
    (he : Echoes old new) : readMarked (t ++ new) = .ok (some (t, new)) := by
  obtain ⟨c, d, more, rfl⟩ := readMarked_prefix h
  simp only [List.cons_append] at h ⊢
  unfold readMarked at h
  split at h
  · rename_i heq
    cases heq
    exact readRaw_echo h he
  · rename_i heq
    cases heq
    exact readRaw_echo h he
  · rename_i heq
    cases heq
    exact readRaw_echo (t := d :: more) h he
  · rename_i heq
    cases heq
    exact map_some_eq_iff.2 (readQuoted_echo (map_some_eq_iff.1 h) he)
  · rename_i heq
    cases heq
    exact map_some_eq_iff.2 (readQuoted_echo (map_some_eq_iff.1 h) he)
  · rename_i heq
    cases heq
    exact map_some_eq_iff.2 (readQuoted_echo (map_some_eq_iff.1 h) he)
  · cases h

/-- Where a word character starts no literal, it starts none in the new text. -/
theorem readMarked_none_echo {c : Char} {old new : Text} (h : readMarked (c :: old) = .ok none)
    (he : Echoes old new) : readMarked (c :: new) = .ok none := by
  unfold readMarked
  split
  · rename_i heq
    cases heq
    obtain ⟨rest, rfl, he'⟩ := he.of_cons (by decide)
    exact readRaw_eq_none_iff.2 (rawOpening_echo (readRaw_eq_none_iff.1 h) he')
  · rename_i heq
    cases heq
    obtain ⟨rest, rfl, he'⟩ := he.of_cons (by decide)
    exact readRaw_eq_none_iff.2 (rawOpening_echo (readRaw_eq_none_iff.1 h) he')
  · rename_i heq
    cases heq
    exact readRaw_eq_none_iff.2 (rawOpening_echo (readRaw_eq_none_iff.1 h) he)
  · rename_i heq
    cases heq
    obtain ⟨rest, rfl, he'⟩ := he.of_cons (by decide)
    exact absurd h map_some_ne_none
  · rename_i heq
    cases heq
    obtain ⟨rest, rfl, he'⟩ := he.of_cons (by decide)
    exact absurd h map_some_ne_none
  · rename_i heq
    cases heq
    obtain ⟨rest, rfl, he'⟩ := he.of_cons (by decide)
    exact absurd h map_some_ne_none
  · rfl

/-! ## Numbers -/

/-- Whether a number goes on where the text starts. -/
def numberGoesOn (plain point : Bool) (t : Text) : Bool :=
  t.head?.any isWordPart ||
    (plain && !point && t.head? == some '.' && t.tail.head?.any Text.isDigit)

/-- Whether `c` is an exponent letter with its sign behind it. -/
def signFollows (plain : Bool) (c : Char) (t : Text) : Bool :=
  plain && (c = 'e' || c = 'E') && t.head?.any fun d => d = '+' || d = '-'

theorem numberGoesOn_echo {plain point : Bool} {old new : Text}
    (h : numberGoesOn plain point old = false) (he : Echoes old new) :
    numberGoesOn plain point new = false := by
  simp only [numberGoesOn, Bool.or_eq_false_iff] at h ⊢
  refine ⟨he.head_any (fun _ => isWordPart_seam) h.1, ?_⟩
  by_cases hdot : new.head? = some '.'
  · obtain ⟨t, rfl⟩ := List.head?_eq_some_iff.1 hdot
    obtain ⟨rest, rfl, he'⟩ := he.of_cons (by decide)
    have hdigit : ∀ c, isSeam c = true → Text.isDigit c = false := fun _ hc =>
      forall_seam (p := fun c => Text.isDigit c = false) (by decide) hc
    have hold := h.2
    simp only [List.head?_cons, beq_self_eq_true, Bool.and_true, List.tail_cons,
      Bool.and_eq_false_iff] at hold ⊢
    exact hold.imp_right (he'.head_any hdigit)
  · have hne : (new.head? == some '.') = false := beq_eq_false_iff_ne.2 hdot
    rw [hne, Bool.and_false, Bool.false_and]

theorem signFollows_echo {plain : Bool} {c : Char} {old new : Text}
    (h : signFollows plain c old = false) (he : Echoes old new) :
    signFollows plain c new = false := by
  simp only [signFollows, Bool.and_eq_false_iff] at h ⊢
  refine h.imp_right (he.head_any ?_)
  intro d hd
  exact forall_seam (p := fun d => (d = '+' || d = '-') = false) (by decide) hd

theorem spanNumber_eq_nil_iff {plain point : Bool} {t : Text} :
    spanNumber plain point t = ([], t) ↔ numberGoesOn plain point t = false := by
  rcases t with _ | ⟨c, _ | ⟨d, t⟩⟩
  · simp [spanNumber, numberGoesOn]
  · by_cases hc : isWordPart c = true <;> simp [spanNumber, numberGoesOn, hc]
  · by_cases hc : isWordPart c = true
    · have hne : (spanNumber plain point (c :: d :: t)).1 ≠ [] := spanNumber_fst_ne_nil hc
      constructor
      · intro h
        rw [h] at hne
        exact absurd rfl hne
      · intro h
        simp [numberGoesOn, hc] at h
    · have hexp : (decide (c = 'e') || decide (c = 'E')) = false := by
        rw [Bool.eq_false_iff]
        intro hexp
        simp only [Bool.or_eq_true, decide_eq_true_eq] at hexp
        apply hc
        rcases hexp with rfl | rfl <;> decide
      by_cases hdot : c = '.'
      · subst hdot
        cases plain <;> cases point <;> by_cases hd : Text.isDigit d = true <;>
          simp [spanNumber, numberGoesOn, hc, hd]
      · simp [spanNumber, numberGoesOn, hc, hexp, hdot]

theorem spanNumber_eq_singleton_iff {plain point : Bool} {c : Char} {t : Text} :
    spanNumber plain point (c :: t) = ([c], t) ↔
      isWordPart c = true ∧ signFollows plain c t = false ∧
        numberGoesOn plain point t = false := by
  cases t with
  | nil => by_cases hc : isWordPart c = true <;> simp [spanNumber, numberGoesOn, signFollows, hc]
  | cons d t =>
    rw [← spanNumber_eq_nil_iff]
    have hsign : signFollows plain c (d :: t) =
        (plain && (c = 'e' || c = 'E') && (d = '+' || d = '-')) := rfl
    rw [hsign]
    simp only [spanNumber]
    split
    · rename_i hs
      simp [hs]
    rename_i hs
    rw [Bool.not_eq_true] at hs
    split
    · rename_i hc
      simp only [Prod.mk.injEq, List.cons.injEq, true_and, hc, hs]
      rw [Prod.ext_iff]
    rename_i hc
    split
    · rename_i hd
      simp only [Bool.and_eq_true] at hd
      have hne : (spanNumber plain true (d :: t)).1 ≠ [] :=
        spanNumber_fst_ne_nil (isWordPart_of_isDigit hd.2)
      simp [hc, hne]
    · simp [hc]

/-- The extent of a number is the same in front of both texts. -/
theorem spanNumber_echo {plain : Bool} {old new : Text} (he : Echoes old new) :
    ∀ (n : Text) (point : Bool), spanNumber plain point (n ++ old) = (n, old) →
      spanNumber plain point (n ++ new) = (n, new)
  | [], point, h => by
    rw [List.nil_append, spanNumber_eq_nil_iff] at h ⊢
    exact numberGoesOn_echo h he
  | [c], point, h => by
    simp only [List.cons_append, List.nil_append, spanNumber_eq_singleton_iff] at h ⊢
    exact ⟨h.1, signFollows_echo h.2.1 he, numberGoesOn_echo h.2.2 he⟩
  | c :: d :: n, point, h => by
    -- the first two characters belong to the number, so they decide in both texts
    simp only [List.cons_append, spanNumber] at h ⊢
    split at h
    · rename_i hs
      simp only [Prod.mk.injEq, List.cons.injEq, true_and] at h
      rw [if_pos hs, spanNumber_echo he n point (Prod.ext h.1 h.2)]
    rename_i hs
    split at h
    · rename_i hc
      simp only [Prod.mk.injEq, List.cons.injEq, true_and] at h
      have := spanNumber_echo he (d :: n) point (Prod.ext h.1 h.2)
      rw [List.cons_append] at this
      rw [if_neg hs, if_pos hc, this]
    rename_i hc
    split at h
    · rename_i hd
      simp only [Prod.mk.injEq, List.cons.injEq, true_and] at h
      have := spanNumber_echo he (d :: n) true (Prod.ext h.1 h.2)
      rw [List.cons_append] at this
      rw [if_neg hs, if_neg hc, if_pos hd, this]
    · cases h

/-- A number does not end in front of a word character. -/
theorem spanNumber_snd_head (plain point : Bool) (t : Text) :
    (spanNumber plain point t).2.head?.any isWordPart = false := by
  fun_induction spanNumber plain point t <;> simp_all

/-- Whether there is a radix mark is decided by the number itself. -/
theorem hasRadix_append {n rest : Text} (hn : n ≠ []) (hrest : rest.head?.any isWordPart = false) :
    hasRadix (n ++ rest) = hasRadix n := by
  rcases n with _ | ⟨c, _ | ⟨d, n⟩⟩
  · exact absurd rfl hn
  · have hmark : ∀ m t, isWordPart m = true → rest ≠ m :: t := by
      rintro m t hm rfl
      simp [hm] at hrest
    cases rest with
    | nil => rfl
    | cons m t =>
      have hx : m ≠ 'x' := fun h => hmark 'x' t (by decide) (by rw [h])
      have hb : m ≠ 'b' := fun h => hmark 'b' t (by decide) (by rw [h])
      have ho : m ≠ 'o' := fun h => hmark 'o' t (by decide) (by rw [h])
      simp only [List.cons_append, List.nil_append]
      unfold hasRadix
      split <;> simp_all
  · simp only [List.cons_append]
    unfold hasRadix
    split <;> simp_all

theorem readNumber_echo {n old new : Text} (hn : n ≠ []) (h : readNumber (n ++ old) = (n, old))
    (he : Echoes old new) : readNumber (n ++ new) = (n, new) := by
  unfold readNumber at h ⊢
  have hold : old.head?.any isWordPart = false := by
    have := spanNumber_snd_head (!hasRadix (n ++ old)) false (n ++ old)
    rwa [h] at this
  have hnew := he.head_any (fun _ => isWordPart_seam) hold
  rw [hasRadix_append hn hold] at h
  rw [hasRadix_append hn hnew]
  exact spanNumber_echo he n false h

end Literal

/-! ## Where words and literals end -/

/-- Whether the last character of a text is blank. -/
def Text.endsBlank (t : Text) : Bool :=
  t.getLast?.any Text.isBlank

theorem Text.endsBlank_of_forall {t : Text} (h : ∀ c ∈ t, Text.isBlank c = false) :
    t.endsBlank = false := by
  unfold Text.endsBlank
  cases hl : t.getLast? with
  | none => rfl
  | some c => exact h c (List.mem_of_getLast? hl)

theorem Text.endsBlank_append_of_ne_nil {s t : Text} (ht : t ≠ []) :
    Text.endsBlank (s ++ t) = t.endsBlank := by
  unfold Text.endsBlank
  rw [List.getLast?_append]
  cases hl : t.getLast? with
  | none => exact absurd (List.getLast?_eq_none_iff.1 hl) ht
  | some c => rfl

theorem Text.endsBlank_append {s t : Text} (hs : s.endsBlank = false) (ht : t.endsBlank = false) :
    Text.endsBlank (s ++ t) = false := by
  unfold Text.endsBlank at hs ht ⊢
  rw [List.getLast?_append]
  cases hl : t.getLast? with
  | none => exact hs
  | some c => rw [hl] at ht; exact ht

/-- The code points of the blank characters. -/
def blankCodes : List Nat :=
  [9, 10, 11, 12, 13, 28, 29, 30, 31, 32, 0x85, 0xA0, 0x1680, 0x2000, 0x2001, 0x2002, 0x2003,
    0x2004, 0x2005, 0x2006, 0x2007, 0x2008, 0x2009, 0x200A, 0x2028, 0x2029, 0x202F, 0x205F, 0x3000]

theorem mem_blankCodes {c : Char} (h : Text.isBlank c = true) : c.toNat ∈ blankCodes := by
  unfold Text.isBlank at h
  split at h
  · simp only [Text.within, Bool.or_eq_true, Bool.and_eq_true, decide_eq_true_eq, Char.le_def,
      UInt32.le_iff_toNat_le, Char.ext_iff, ← UInt32.toNat_inj] at h
    change (c.toNat = 32 ∨ 9 ≤ c.toNat ∧ c.toNat ≤ 13) ∨ 28 ≤ c.toNat ∧ c.toNat ≤ 31 at h
    simp only [blankCodes, List.mem_cons, List.not_mem_nil, or_false]
    omega
  · simp only [Text.Ranges.has, Text.blankRanges, List.any_cons, List.any_nil, Bool.or_false,
      Bool.or_eq_true, Bool.and_eq_true, decide_eq_true_eq] at h
    simp only [blankCodes, List.mem_cons, List.not_mem_nil, or_false]
    omega

/-- No blank belongs to a word. -/
theorem isBlank_of_isWordPart {c : Char} (h : isWordPart c = true) : Text.isBlank c = false := by
  have hall : ∀ n ∈ blankCodes, isWordPart (Char.ofNat n) = false := by decide +kernel
  rw [Bool.eq_false_iff]
  intro hb
  have := hall c.toNat (mem_blankCodes hb)
  rw [Char.ofNat_toNat, h] at this
  cases this

theorem spanWord_forall {t : Text} {c : Char} (hc : c ∈ (spanWord t).1) : isWordPart c = true :=
  (spanWord_eq_iff.1 (spanWord_self t)).1 c hc

namespace Literal

theorem quotedBody_solid {quote : Char} {t body after : Text} (hq : Text.isBlank quote = false)
    (h : quotedBody quote t = some (body, after)) : body.endsBlank = false := by
  fun_induction quotedBody quote t generalizing body with
  | case1 => cases h
  | case2 => cases h
  | case3 c rest ih =>
    simp only [Option.map_eq_some_iff, Prod.mk.injEq, Prod.exists] at h
    obtain ⟨b, a, hb, rfl, rfl⟩ := h
    rw [← ih hb]
    exact Text.endsBlank_append_of_ne_nil (s := ['\\', c]) (quotedBody_ne_nil hb)
  | case4 =>
    simp only [Option.some.injEq, Prod.mk.injEq] at h
    obtain ⟨rfl, rfl⟩ := h
    exact hq
  | case5 c rest _ _ _ ih =>
    simp only [Option.map_eq_some_iff, Prod.mk.injEq, Prod.exists] at h
    obtain ⟨b, a, hb, rfl, rfl⟩ := h
    rw [← ih hb]
    exact Text.endsBlank_append_of_ne_nil (s := [c]) (quotedBody_ne_nil hb)

theorem readQuoted_solid {opening rest text after : Text} {quote : Char}
    (hq : Text.isBlank quote = false) (h : readQuoted opening quote rest = .ok (text, after)) :
    text.endsBlank = false := by
  obtain ⟨body, suffix, hb, hs, rfl⟩ := readQuoted_eq_ok_iff.1 h
  have hsuffix : suffix.endsBlank = false :=
    Text.endsBlank_of_forall fun c hc => isBlank_of_isWordPart ((spanWord_eq_iff.1 hs).1 c hc)
  refine Text.endsBlank_append ?_ hsuffix
  rw [Text.endsBlank_append_of_ne_nil (quotedBody_ne_nil hb)]
  exact quotedBody_solid hq hb

theorem readRaw_solid {mark t text after : Text} (h : readRaw mark t = .ok (some (text, after))) :
    text.endsBlank = false := by
  obtain ⟨hashes, inside, suffix, -, -, hs, rfl⟩ := readRaw_eq_some_iff.1 h
  have hsuffix : Text.endsBlank suffix = false :=
    Text.endsBlank_of_forall fun c hc => isBlank_of_isWordPart ((spanWord_eq_iff.1 hs).1 c hc)
  have hclosing : Text.endsBlank (rawClosing hashes) = false := by
    refine Text.endsBlank_of_forall fun c hc => ?_
    simp only [rawClosing, List.mem_cons, List.mem_replicate] at hc
    rcases hc with rfl | ⟨-, rfl⟩ <;> decide
  refine Text.endsBlank_append ?_ hsuffix
  rw [Text.endsBlank_append_of_ne_nil (by simp), Text.endsBlank_append_of_ne_nil (by simp),
    ← List.cons_append, Text.endsBlank_append_of_ne_nil (by simp [rawClosing])]
  exact hclosing

theorem readMarked_solid {t text after : Text} (h : readMarked t = .ok (some (text, after))) :
    text.endsBlank = false := by
  unfold readMarked at h
  split at h
  · exact readRaw_solid h
  · exact readRaw_solid h
  · exact readRaw_solid h
  · exact readQuoted_solid (by decide) (map_some_eq_iff.1 h)
  · exact readQuoted_solid (by decide) (map_some_eq_iff.1 h)
  · exact readQuoted_solid (by decide) (map_some_eq_iff.1 h)
  · cases h

/-- A number has no blanks: besides word characters it holds signs and points only. -/
theorem spanNumber_solid (plain point : Bool) (t : Text) :
    ∀ c ∈ (spanNumber plain point t).1, Text.isBlank c = false := by
  fun_induction spanNumber plain point t with
  | case1 => simp
  | case2 _ c hc => simpa using isBlank_of_isWordPart hc
  | case3 => simp
  | case4 point c d rest h ih =>
    simp only [Bool.and_eq_true, Bool.or_eq_true, decide_eq_true_eq] at h
    obtain ⟨⟨-, hc⟩, hd⟩ := h
    intro x hx
    simp only [List.mem_cons] at hx
    rcases hx with rfl | rfl | hx
    · rcases hc with rfl | rfl <;> decide
    · rcases hd with rfl | rfl <;> decide
    · exact ih x hx
  | case5 point c d rest _ hc ih =>
    intro x hx
    rcases List.mem_cons.1 hx with rfl | hx
    · exact isBlank_of_isWordPart hc
    · exact ih x hx
  | case6 point c d rest _ _ h ih =>
    simp only [Bool.and_eq_true, decide_eq_true_eq] at h
    obtain ⟨⟨⟨rfl, -⟩, -⟩, -⟩ := h
    intro x hx
    rcases List.mem_cons.1 hx with rfl | hx
    · decide
    · exact ih x hx
  | case7 => simp

end Literal

end CondAttrs
