import CondAttrs.Diagnostic.Fault
import CondAttrs.Token.Word

/-!
# Literals

The extent of string, character and number literals. None of them is
interpreted: a literal is the text from its first character to its last,
including a suffix made of word characters (`1u8`, `"x"tag`).

* A *quoted* literal runs to the next quote that no backslash escapes.
* A *raw* string opens with a number of hashes and a quote and runs to the next
  quote with as many hashes behind it; a backslash means nothing in it.
* A *number* runs over word characters. Unless it has a radix mark it may hold
  one decimal point, if a digit follows, and a sign right behind an exponent
  letter.

Every function returns the literal and the rest of the text, and a theorem says
that the two make up the text.
-/

namespace CondAttrs.Literal

/-- A text extended by the word characters that follow it. -/
def withSuffix (text rest : Text) : Text × Text :=
  (text ++ (spanWord rest).1, (spanWord rest).2)

theorem withSuffix_append (text rest : Text) :
    (withSuffix text rest).1 ++ (withSuffix text rest).2 = text ++ rest := by
  simp [withSuffix, spanWord_append]

/-! ## Quoted literals -/

/-- What follows an opening quote, the closing quote included, and the rest. -/
def quotedBody (quote : Char) : Text → Option (Text × Text)
  | [] => none
  | ['\\'] => none
  | '\\' :: c :: rest =>
    (quotedBody quote rest).map fun (body, after) => ('\\' :: c :: body, after)
  | c :: rest =>
    if c = quote then some ([c], rest)
    else (quotedBody quote rest).map fun (body, after) => (c :: body, after)

theorem quotedBody_append {quote : Char} {t body after : Text}
    (h : quotedBody quote t = some (body, after)) : body ++ after = t := by
  fun_induction quotedBody quote t generalizing body with
  | case1 => simp at h
  | case2 => simp at h
  | case3 c rest ih =>
    simp only [Option.map_eq_some_iff, Prod.mk.injEq, Prod.exists] at h
    obtain ⟨b, a, hb, rfl, rfl⟩ := h
    simp [ih hb]
  | case4 =>
    simp only [Option.some.injEq, Prod.mk.injEq] at h
    obtain ⟨rfl, rfl⟩ := h
    rfl
  | case5 c rest _ _ _ ih =>
    simp only [Option.map_eq_some_iff, Prod.mk.injEq, Prod.exists] at h
    obtain ⟨b, a, hb, rfl, rfl⟩ := h
    simp [ih hb]

/-- The quoted literal that starts with `opening`, which ends in the quote. -/
def readQuoted (opening : Text) (quote : Char) (rest : Text) : Except Fault (Text × Text) :=
  match quotedBody quote rest with
  | none => .error (.literalUnterminated quote)
  | some (body, after) => .ok (withSuffix (opening ++ body) after)

theorem readQuoted_append {opening rest text after : Text} {quote : Char}
    (h : readQuoted opening quote rest = .ok (text, after)) : text ++ after = opening ++ rest := by
  unfold readQuoted at h
  split at h
  · cases h
  · rename_i body a hb
    simp only [Except.ok.injEq] at h
    have := withSuffix_append (opening ++ body) a
    rw [h] at this
    rw [this, List.append_assoc, quotedBody_append hb]

theorem readQuoted_ne_nil {opening rest text after : Text} {quote : Char} (ho : opening ≠ [])
    (h : readQuoted opening quote rest = .ok (text, after)) : text ≠ [] := by
  unfold readQuoted at h
  split at h
  · cases h
  · simp only [Except.ok.injEq, withSuffix, Prod.mk.injEq] at h
    obtain ⟨rfl, -⟩ := h
    simp [ho]

/-! ## Raw strings -/

/-- The number of hashes in front of the opening quote of a raw string, and what
follows the quote. -/
def rawOpening (t : Text) : Option (Nat × Text) :=
  match t.dropWhile (· = '#') with
  | '"' :: body => some ((t.takeWhile (· = '#')).length, body)
  | _ => none

/-- What ends a raw string with the given number of hashes. -/
def rawClosing (hashes : Nat) : Text :=
  '"' :: List.replicate hashes '#'

private theorem takeWhile_hash (t : Text) :
    t.takeWhile (· = '#') = List.replicate (t.takeWhile (· = '#')).length '#' := by
  induction t with
  | nil => rfl
  | cons c rest ih =>
    by_cases h : c = '#'
    · subst h
      simp only [List.takeWhile_cons, decide_true, ↓reduceIte, List.length_cons,
        List.replicate_succ, List.cons.injEq, true_and]
      exact ih
    · simp [h]

theorem rawOpening_append {t body : Text} {hashes : Nat} (h : rawOpening t = some (hashes, body)) :
    List.replicate hashes '#' ++ '"' :: body = t := by
  unfold rawOpening at h
  split at h
  · rename_i b hb
    simp only [Option.some.injEq, Prod.mk.injEq] at h
    obtain ⟨rfl, rfl⟩ := h
    rw [← takeWhile_hash, ← hb, List.takeWhile_append_dropWhile]
  · cases h

/-- The raw string behind the type letters `mark`, or nothing if no raw string
opens there. -/
def readRaw (mark : Text) (t : Text) : Except Fault (Option (Text × Text)) :=
  match rawOpening t with
  | none => .ok none
  | some (hashes, body) =>
    match Text.splitAtWord (rawClosing hashes) body with
    | none => .error (.rawUnterminated hashes)
    | some (inside, after) =>
      .ok (some (withSuffix
        (mark ++ (List.replicate hashes '#' ++ '"' :: (inside ++ rawClosing hashes))) after))

theorem readRaw_append {mark t text after : Text}
    (h : readRaw mark t = .ok (some (text, after))) : text ++ after = mark ++ t := by
  unfold readRaw at h
  split at h
  · cases h
  · rename_i hashes body ho
    split at h
    · cases h
    · rename_i inside a hs
      simp only [Except.ok.injEq, Option.some.injEq] at h
      have := withSuffix_append
        (mark ++ (List.replicate hashes '#' ++ '"' :: (inside ++ rawClosing hashes))) a
      rw [h] at this
      rw [this, ← rawOpening_append ho, ← Text.splitAtWord_append hs]
      simp

theorem readRaw_ne_nil {mark t text after : Text}
    (h : readRaw mark t = .ok (some (text, after))) : text ≠ [] := by
  unfold readRaw at h
  split at h
  · cases h
  · split at h
    · cases h
    · simp only [Except.ok.injEq, Option.some.injEq, withSuffix, Prod.mk.injEq] at h
      obtain ⟨rfl, -⟩ := h
      simp

/-- The literal that starts with a type letter, if there is one: raw strings,
byte strings, strings for foreign code, and byte characters. -/
def readMarked (t : Text) : Except Fault (Option (Text × Text)) :=
  match t with
  | 'b' :: 'r' :: rest => readRaw ['b', 'r'] rest
  | 'c' :: 'r' :: rest => readRaw ['c', 'r'] rest
  | 'r' :: rest => readRaw ['r'] rest
  | 'b' :: '"' :: rest => (readQuoted ['b', '"'] '"' rest).map some
  | 'c' :: '"' :: rest => (readQuoted ['c', '"'] '"' rest).map some
  | 'b' :: '\'' :: rest => (readQuoted ['b', '\''] '\'' rest).map some
  | _ => .ok none

private theorem map_some_eq {α ε : Type} {e : Except ε α} {a : α}
    (h : e.map some = .ok (some a)) : e = .ok a := by
  cases e with
  | error => cases h
  | ok b =>
    simp only [Except.map, Except.ok.injEq, Option.some.injEq] at h
    rw [h]

theorem readMarked_append {t text after : Text}
    (h : readMarked t = .ok (some (text, after))) : text ++ after = t := by
  unfold readMarked at h
  split at h
  · exact readRaw_append h
  · exact readRaw_append h
  · exact readRaw_append h
  · exact readQuoted_append (map_some_eq h)
  · exact readQuoted_append (map_some_eq h)
  · exact readQuoted_append (map_some_eq h)
  · cases h

theorem readMarked_ne_nil {t text after : Text}
    (h : readMarked t = .ok (some (text, after))) : text ≠ [] := by
  unfold readMarked at h
  split at h
  · exact readRaw_ne_nil h
  · exact readRaw_ne_nil h
  · exact readRaw_ne_nil h
  · exact readQuoted_ne_nil (by simp) (map_some_eq h)
  · exact readQuoted_ne_nil (by simp) (map_some_eq h)
  · exact readQuoted_ne_nil (by simp) (map_some_eq h)
  · cases h

/-! ## Numbers -/

/-- Whether a number has a radix mark, and so neither point nor exponent. -/
def hasRadix : Text → Bool
  | '0' :: 'x' :: _ => true
  | '0' :: 'b' :: _ => true
  | '0' :: 'o' :: _ => true
  | _ => false

/-- The characters of a number, and the rest. `plain` allows a point and signed
exponents; `point` tells that a point has been seen. -/
def spanNumber (plain : Bool) : (point : Bool) → Text → Text × Text
  | _, [] => ([], [])
  | _, [c] => if isWordPart c then ([c], []) else ([], [c])
  | point, c :: d :: rest =>
    if plain && (c = 'e' || c = 'E') && (d = '+' || d = '-') then
      (c :: d :: (spanNumber plain point rest).1, (spanNumber plain point rest).2)
    else if isWordPart c then
      (c :: (spanNumber plain point (d :: rest)).1, (spanNumber plain point (d :: rest)).2)
    else if c = '.' && plain && !point && Text.isDigit d then
      (c :: (spanNumber plain true (d :: rest)).1, (spanNumber plain true (d :: rest)).2)
    else ([], c :: d :: rest)

theorem spanNumber_append (plain point : Bool) (t : Text) :
    (spanNumber plain point t).1 ++ (spanNumber plain point t).2 = t := by
  fun_induction spanNumber plain point t <;> simp_all

/-- A number that starts with a word character is not empty. -/
theorem spanNumber_fst_ne_nil {plain point : Bool} {c : Char} {rest : Text}
    (h : isWordPart c = true) : (spanNumber plain point (c :: rest)).1 ≠ [] := by
  cases rest with
  | nil => simp [spanNumber, h]
  | cons d rest =>
    simp only [spanNumber, h]
    split <;> simp

/-- The number at the start of a text, and the rest. -/
def readNumber (t : Text) : Text × Text :=
  spanNumber (!hasRadix t) false t

end CondAttrs.Literal
