import CondAttrs.Text.Quoted

/-!
# Escapes by replacement

Escaping can be described by replacements in a whole text, one after the other. The order
matters: the mark of the escapes is replaced first, since every other replacement brings in new
marks, and when escapes are undone it comes last. The library escapes character by character
instead, and the two agree.

## Main definitions

* `Text.replaceAll`: all occurrences of a word replaced.
* `Text.Quoted.escapes`: the escapes of a quoted literal.

## Main statements

* `Text.replaceAll_append`, `Text.replaceAll_cons`: how replacement goes on.
* `Text.Quoted.encodeBody_eq_foldl`: a quoted literal is escaped by five replacements.
-/

namespace CondAttrs.Text

/-! ## Replacement -/

/-- The text behind its first `skip` characters, with every occurrence of `word` replaced, from
left to right. -/
def replaceFrom (word new : Text) : (skip : Nat) → Text → Text
  | _, [] => []
  | skip + 1, _ :: rest => replaceFrom word new skip rest
  | 0, c :: rest =>
    if word.isPrefixOf (c :: rest) then new ++ replaceFrom word new (word.length - 1) rest
    else c :: replaceFrom word new 0 rest

/-- Every occurrence of `word` replaced by `new`; an occurrence starts behind the one before. -/
def replaceAll (word new t : Text) : Text :=
  replaceFrom word new 0 t

variable {word new : Text}

theorem replaceFrom_eq_drop (skip : Nat) (t : Text) :
    replaceFrom word new skip t = replaceAll word new (t.drop skip) := by
  induction t generalizing skip with
  | nil => cases skip <;> rfl
  | cons c rest ih =>
    cases skip with
    | zero => rfl
    | succ skip => exact ih skip

theorem replaceAll_of_not_prefix {c : Char} {rest : Text} (h : ¬ word <+: c :: rest) :
    replaceAll word new (c :: rest) = c :: replaceAll word new rest := by
  rw [← List.isPrefixOf_iff_prefix] at h
  rw [replaceAll, replaceFrom, if_neg h]
  rfl

/-- An occurrence at the start is replaced. -/
theorem replaceAll_append (h : word ≠ []) (rest : Text) :
    replaceAll word new (word ++ rest) = new ++ replaceAll word new rest := by
  obtain ⟨c, w, rfl⟩ := List.exists_cons_of_ne_nil h
  have hword : (c :: w).isPrefixOf (c :: (w ++ rest)) = true :=
    List.isPrefixOf_iff_prefix.2 (List.prefix_append (c :: w) rest)
  rw [List.cons_append, replaceAll, replaceFrom, if_pos hword, replaceFrom_eq_drop]
  simp

/-- A character with which the word does not start stays. -/
theorem replaceAll_cons {c d : Char} {w : Text} (hne : c ≠ d) (rest : Text) :
    replaceAll (d :: w) new (c :: rest) = c :: replaceAll (d :: w) new rest :=
  replaceAll_of_not_prefix fun h => hne (List.cons_prefix_cons.1 h).1.symm

/-- A single character is replaced wherever it stands. -/
theorem replaceAll_singleton (c : Char) (new t : Text) :
    replaceAll [c] new t = t.flatMap fun d => if d = c then new else [d] := by
  induction t with
  | nil => rfl
  | cons d rest ih =>
    rw [List.flatMap_cons, ← ih]
    by_cases hd : d = c
    · rw [hd, if_pos rfl]
      exact replaceAll_append (List.cons_ne_nil c []) rest
    · rw [if_neg hd]
      exact replaceAll_cons hd rest

/-! ## Quoted literals -/

namespace Quoted

/-- The characters that are escaped in a quoted literal and what is written for them, in the order
in which they are replaced. -/
def escapes : List (Char × Text) :=
  [ ('\\', ['\\', '\\']), ('"', ['\\', '"']), ('\n', ['\\', 'n']), ('\r', ['\\', 'r']),
    ('\t', ['\\', 't']) ]

/-- The body of a quoted literal is the text with all escapes made, one after the other. -/
theorem encodeBody_eq_foldl (t : Text) :
    encodeBody t = escapes.foldl (fun u e => replaceAll [e.1] e.2 u) t := by
  simp only [escapes, List.foldl_cons, List.foldl_nil, replaceAll_singleton, List.flatMap_assoc,
    encodeBody]
  congr 1
  funext c
  -- no character that is brought in for `c` is replaced later
  unfold encodeChar
  split <;> simp_all

end Quoted

end CondAttrs.Text
