import CondAttrs.Declaration.Angle

/-!
# Taking tokens

A reader takes tokens off the front of a list and either returns what it took or
says what it expected and what it found. The readers here are the steps of which
the readers of declarations are composed.

A reader *shrinks* its input if it never leaves more than it was given, and
*consumes* if it always leaves less. Both properties pass through composition,
which is how a list of items is shown to end.
-/

namespace CondAttrs

/-- What a reader missed, and the token it met instead. -/
structure Missing where
  /-- What was expected. -/
  expected : Text
  /-- The next token; none at the end of the tokens. -/
  found : Option Token

/-- A reader of tokens. -/
abbrev Take (α : Type) := StateT (List Token) (Except Missing) α

namespace Take

/-- The next token, left in place. -/
def peek : Take (Option Token) := fun tokens =>
  .ok (tokens.head?, tokens)

/-- The tokens that a function divides off. -/
def part (span : List Token → List Token × List Token) : Take (List Token) := fun tokens =>
  .ok (span tokens)

/-- The next token, if it satisfies `p`. -/
def token (p : Token → Bool) (expected : Text) : Take Token := fun tokens =>
  match tokens with
  | t :: rest => if p t then .ok (t, rest) else .error ⟨expected, some t⟩
  | [] => .error ⟨expected, none⟩

/-- The next token if it satisfies `p`, and otherwise nothing. -/
def optional (p : Token → Bool) : Take (Option Token) := fun tokens =>
  match tokens with
  | t :: rest => if p t then .ok (some t, rest) else .ok (none, t :: rest)
  | [] => .ok (none, [])

/-- A name in backticks, as messages show it. -/
def ticked (name : Text) : Text :=
  "`" ++ name ++ "`"

/-- The given word. -/
def word (w : Text) : Take Token :=
  token (Token.isWord w) (ticked w)

/-- Any identifier; `expected` says what it names. -/
def ident (expected : Text) : Take Token :=
  token Token.isIdent expected

/-- The punctuation character `c`. -/
def punct (c : Char) : Take Token :=
  token (Token.isPunct c) (ticked [c])

/-- A group between the given brackets. -/
def group (d : Delimiter) : Take Token :=
  token (Token.isGroup d) (ticked [d.opening])

/-- The tokens up to the first one outside angle brackets that `stop` accepts. -/
def upTo (stop : Token → Bool) : Take (List Token) :=
  part (Angle.spanUntil stop none 0)

/-- The tokens up to the first one that `stop` accepts, angle brackets or not. -/
def upToAny (stop : Token → Bool) : Take (List Token) :=
  part fun tokens => (tokens.takeWhile (!stop ·), tokens.dropWhile (!stop ·))

/-- The where clause, if there is one: the tokens from `where` to the first one
outside angle brackets that `stop` accepts. -/
def whereClause (stop : Token → Bool) : Take (List Token) := do
  match ← optional (Token.isWord "where") with
  | none => return []
  | some keyword => return keyword :: (← upTo stop)

/-- The list of generic parameters, if there is one. -/
def generics : Take (List Token) := fun tokens =>
  match Angle.spanGenerics tokens with
  | some result => .ok result
  | none => .error ⟨"`>` closing the generic parameters", none⟩

/-! ## Progress -/

/-- The reader never leaves more tokens than it was given. -/
def Shrinks {α : Type} (r : Take α) : Prop :=
  ∀ tokens a rest, r tokens = .ok (a, rest) → rest.length ≤ tokens.length

/-- The reader always leaves fewer tokens than it was given. -/
def Consumes {α : Type} (r : Take α) : Prop :=
  ∀ tokens a rest, r tokens = .ok (a, rest) → rest.length < tokens.length

theorem Consumes.shrinks {α : Type} {r : Take α} (h : Consumes r) : Shrinks r :=
  fun tokens a rest hr => Nat.le_of_lt (h tokens a rest hr)

theorem bind_eq_ok {α β : Type} {r : Take α} {f : α → Take β} {tokens rest : List Token}
    {b : β} (h : (r >>= f) tokens = .ok (b, rest)) :
    ∃ a middle, r tokens = .ok (a, middle) ∧ f a middle = .ok (b, rest) := by
  cases hr : r tokens with
  | error e =>
    rw [show (r >>= f) tokens = .error e by simp [bind, StateT.bind, Except.bind, hr]] at h
    cases h
  | ok p =>
    refine ⟨p.1, p.2, rfl, ?_⟩
    rw [← h]
    simp [bind, StateT.bind, Except.bind, hr]

theorem Shrinks.bind {α β : Type} {r : Take α} {f : α → Take β} (hr : Shrinks r)
    (hf : ∀ a, Shrinks (f a)) : Shrinks (r >>= f) := by
  intro tokens b rest h
  obtain ⟨a, middle, h₁, h₂⟩ := bind_eq_ok h
  exact Nat.le_trans (hf a _ _ _ h₂) (hr _ _ _ h₁)

theorem Consumes.bind {α β : Type} {r : Take α} {f : α → Take β} (hr : Consumes r)
    (hf : ∀ a, Shrinks (f a)) : Consumes (r >>= f) := by
  intro tokens b rest h
  obtain ⟨a, middle, h₁, h₂⟩ := bind_eq_ok h
  exact Nat.lt_of_le_of_lt (hf a _ _ _ h₂) (hr _ _ _ h₁)

/-- A reader that consumes may come behind one that only shrinks. -/
theorem Shrinks.bind_consumes {α β : Type} {r : Take α} {f : α → Take β} (hr : Shrinks r)
    (hf : ∀ a, Consumes (f a)) : Consumes (r >>= f) := by
  intro tokens b rest h
  obtain ⟨a, middle, h₁, h₂⟩ := bind_eq_ok h
  exact Nat.lt_of_lt_of_le (hf a _ _ _ h₂) (hr _ _ _ h₁)

theorem shrinks_pure {α : Type} (a : α) : Shrinks (pure a : Take α) := by
  intro tokens b rest h
  have hresult : Except.ok (a, tokens) = Except.ok (b, rest) := h
  cases hresult
  exact Nat.le_refl _

theorem shrinks_peek : Shrinks peek := by
  intro tokens a rest h
  simp only [peek, Except.ok.injEq, Prod.mk.injEq] at h
  exact h.2 ▸ Nat.le_refl _

theorem shrinks_part {span : List Token → List Token × List Token}
    (h : ∀ tokens, (span tokens).1 ++ (span tokens).2 = tokens) : Shrinks (part span) := by
  intro tokens a rest hr
  simp only [part, Except.ok.injEq] at hr
  have := congrArg List.length (h tokens)
  rw [hr, List.length_append] at this
  exact this ▸ Nat.le_add_left _ _

theorem consumes_token (p : Token → Bool) (expected : Text) : Consumes (token p expected) := by
  intro tokens a rest h
  cases tokens with
  | nil => cases h
  | cons t rest' =>
    simp only [token] at h
    split at h
    · simp only [Except.ok.injEq, Prod.mk.injEq] at h
      simp [h.2]
    · cases h

theorem shrinks_optional (p : Token → Bool) : Shrinks (optional p) := by
  intro tokens a rest h
  cases tokens with
  | nil =>
    simp only [optional, Except.ok.injEq, Prod.mk.injEq] at h
    simp [← h.2]
  | cons t rest' =>
    simp only [optional] at h
    split at h <;> simp only [Except.ok.injEq, Prod.mk.injEq] at h <;> simp [← h.2]

theorem shrinks_upTo (stop : Token → Bool) : Shrinks (upTo stop) :=
  shrinks_part fun tokens => Angle.spanUntil_append stop none 0 tokens

theorem shrinks_upToAny (stop : Token → Bool) : Shrinks (upToAny stop) :=
  shrinks_part fun _ => List.takeWhile_append_dropWhile

theorem shrinks_whereClause (stop : Token → Bool) : Shrinks (whereClause stop) := by
  refine (shrinks_optional _).bind fun keyword => ?_
  cases keyword with
  | none => exact shrinks_pure _
  | some keyword => exact (shrinks_upTo stop).bind fun _ => shrinks_pure _

theorem shrinks_generics : Shrinks generics := by
  intro tokens a rest h
  simp only [generics] at h
  split at h
  · rename_i result hg
    simp only [Except.ok.injEq] at h
    subst h
    have := congrArg List.length (Angle.spanGenerics_append hg)
    rw [List.length_append] at this
    omega
  · cases h

end Take

end CondAttrs
