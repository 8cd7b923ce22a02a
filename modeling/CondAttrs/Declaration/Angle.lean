import CondAttrs.Token.Basic

/-!
# Angle brackets

Angle brackets are no delimiters of the token tree, because `<` and `>` are also
operators. Where a type or a list of generic parameters is expected they are
matched by counting: `<` opens, and `>` closes unless it is the head of an arrow,
that is, directly behind a joint `-` or `=`. The count never falls below zero.

## Main definitions

* `Angle.step`: the count behind one token.
* `Angle.spanUntil`: the tokens up to the first stop outside all angle brackets.
* `Angle.spanGenerics`: a whole list of generic parameters.
-/

namespace CondAttrs.Angle

/-- Whether the token in front makes `>` the head of an arrow. -/
def startsArrow (previous : Option Token) : Bool :=
  previous.any fun t => t.isJoint '-' || t.isJoint '='

/-- The number of open angle brackets behind the token `t`. -/
def step (previous : Option Token) (t : Token) (depth : Nat) : Nat :=
  if t.isPunct '<' then depth + 1
  else if t.isPunct '>' && !startsArrow previous then depth - 1
  else depth

/-- The tokens up to the first one outside all angle brackets that `stop` accepts,
and the rest. -/
def spanUntil (stop : Token → Bool) :
    (previous : Option Token) → (depth : Nat) → List Token → List Token × List Token
  | _, _, [] => ([], [])
  | previous, depth, t :: rest =>
    if depth = 0 && stop t then ([], t :: rest)
    else
      let after := spanUntil stop (some t) (step previous t depth) rest
      (t :: after.1, after.2)

/-- The tokens up to the one that closes the last open angle bracket, that one
included, and the rest. -/
def spanClosing : (previous : Token) → (depth : Nat) → List Token →
    Option (List Token × List Token)
  | _, _, [] => none
  | previous, depth, t :: rest =>
    let depth := step (some previous) t depth
    if depth = 0 then some ([t], rest)
    else (spanClosing t depth rest).map fun (inside, after) => (t :: inside, after)

/-- The list of generic parameters at the start of a token list, empty if there is
none, and the rest. Fails if the list is not closed. -/
def spanGenerics : List Token → Option (List Token × List Token)
  | [] => some ([], [])
  | t :: rest =>
    if t.isPunct '<' then
      (spanClosing t 1 rest).map fun (inside, after) => (t :: inside, after)
    else some ([], t :: rest)

/-! ## No token is lost -/

theorem spanUntil_append (stop : Token → Bool) (previous : Option Token) (depth : Nat)
    (tokens : List Token) :
    (spanUntil stop previous depth tokens).1 ++ (spanUntil stop previous depth tokens).2 =
      tokens := by
  induction tokens generalizing previous depth with
  | nil => rfl
  | cons t rest ih =>
    simp only [spanUntil]
    split <;> simp [ih]

theorem spanClosing_append {previous : Token} {depth : Nat} {tokens inside after : List Token}
    (h : spanClosing previous depth tokens = some (inside, after)) : inside ++ after = tokens := by
  induction tokens generalizing previous depth inside with
  | nil => cases h
  | cons t rest ih =>
    simp only [spanClosing] at h
    split at h
    · simp only [Option.some.injEq, Prod.mk.injEq] at h
      obtain ⟨rfl, rfl⟩ := h
      rfl
    · simp only [Option.map_eq_some_iff, Prod.mk.injEq, Prod.exists] at h
      obtain ⟨i, a, hs, rfl, rfl⟩ := h
      simp [ih hs]

theorem spanGenerics_append {tokens generics after : List Token}
    (h : spanGenerics tokens = some (generics, after)) : generics ++ after = tokens := by
  unfold spanGenerics at h
  split at h
  · simp only [Option.some.injEq, Prod.mk.injEq] at h
    obtain ⟨rfl, rfl⟩ := h
    rfl
  · split at h
    · simp only [Option.map_eq_some_iff, Prod.mk.injEq, Prod.exists] at h
      obtain ⟨i, a, hs, rfl, rfl⟩ := h
      simp [spanClosing_append hs]
    · simp only [Option.some.injEq, Prod.mk.injEq] at h
      obtain ⟨rfl, rfl⟩ := h
      rfl

end CondAttrs.Angle
