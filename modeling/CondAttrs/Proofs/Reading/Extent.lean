import CondAttrs.Proofs.Reading.Independence
import CondAttrs.Proofs.Splice

/-!
# How far a declaration reaches

A declaration is read from its own tokens. The readers it is composed of look at one token more than
they take: generic parameters are there if `<` comes next, and what goes up to a stop ends in front
of it. But every declaration ends with a token that belongs to it, a semicolon or a group, so the
token that was looked at is one of its own, and what comes behind the declaration has no part in how
it is read.

There is one exception. Behind an invocation with arguments in braces a semicolon is taken along if
there is one, so that such an invocation without a semicolon tells that none came next.

## Main definitions

* `Take.Ahead`: a reader looks at one token behind those that it takes.
* `Take.Closed`: a reader looks no further than it takes, and takes a symbol.
* `Shape.Allows`: what may come behind a shape.
* `Item.stop`: the index behind an item.

## Main statements

* `Take.Ahead.bind_closed`: what looks ahead is closed by what comes next.
* `Shape.closed_take`: a declaration is read from its own tokens.
* `Kind.select_append`: so is its kind.
* `Item.parse_extent`: what comes behind a declaration does not change it, and every item ends.
-/

namespace CondAttrs

/-- Whether the token is neither a word nor a literal. -/
def Token.isSymbol (t : Token) : Bool :=
  !t.isIdent && !t.isLiteral

theorem Token.isSymbol_of_isPunct {c : Char} {t : Token} (h : t.isPunct c = true) :
    t.isSymbol = true := by
  obtain ⟨_, _, _, rfl⟩ := isPunct_iff.1 h
  rfl

theorem Token.isSymbol_of_isGroup {d : Delimiter} {t : Token} (h : t.isGroup d = true) :
    t.isSymbol = true := by
  cases t with
  | atom => cases h
  | group => rfl

theorem Token.isSymbol_of_isOneOf {words : List Text} {t : Token} (h : t.isOneOf words = true) :
    t.isSymbol = false := by
  obtain ⟨name, hname, -⟩ := (Option.any_eq_true _ _).1 h
  rw [isSymbol, isIdent, hname]
  rfl

theorem Token.isWord_of_isIdent {t : Token} (h : t.isIdent = false) (w : Text) :
    t.isWord w = false := by
  rw [isIdent, Option.isSome_eq_false_iff, Option.isNone_iff_eq_none] at h
  rw [isWord, h]
  rfl

theorem Token.isIdent_of_isSymbol {t : Token} (h : t.isSymbol = true) : t.isIdent = false := by
  simpa using (Bool.and_eq_true_iff.1 h).1

/-! ## What a division depends on -/

/-- What the function divides off depends on that and on the token behind. -/
def SpansAhead (span : List Token → List Token × List Token) : Prop :=
  ∀ tokens rest, rest.head? = (span tokens).2.head? →
    span ((span tokens).1 ++ rest) = ((span tokens).1, rest)

theorem Angle.spanUntil_ahead (stop : Token → Bool) (previous : Option Token) (depth : Nat) :
    SpansAhead (spanUntil stop previous depth) := by
  intro tokens rest h
  induction tokens generalizing previous depth with
  | nil =>
    rw [List.head?_eq_none_iff.1 h]
    rfl
  | cons t more ih =>
    by_cases hstop : (depth = 0 && stop t) = true
    · rw [spanUntil, if_pos hstop] at h ⊢
      obtain ⟨rest, rfl⟩ := List.head?_eq_some_iff.1 h
      rw [List.nil_append, spanUntil, if_pos hstop]
    · rw [spanUntil, if_neg hstop] at h ⊢
      rw [List.cons_append, spanUntil, if_neg hstop, ih _ _ h]

theorem takeWhile_ahead (p : Token → Bool) :
    SpansAhead fun tokens => (tokens.takeWhile p, tokens.dropWhile p) := by
  intro tokens rest h
  induction tokens with
  | nil =>
    rw [List.head?_eq_none_iff.1 h]
    rfl
  | cons t more ih =>
    by_cases hp : p t = true
    · simp only [List.takeWhile_cons, List.dropWhile_cons, hp, ↓reduceIte] at h ⊢
      have := ih h
      simp_all
    · simp only [List.takeWhile_cons, List.dropWhile_cons, hp] at h ⊢
      obtain ⟨rest, rfl⟩ := List.head?_eq_some_iff.1 h
      simp [hp]

theorem spanQualifiers_ahead (words : List Text) (previous : Option Token) :
    SpansAhead (spanQualifiers words previous) := by
  intro tokens rest h
  induction tokens generalizing previous with
  | nil =>
    rw [List.head?_eq_none_iff.1 h]
    rfl
  | cons t more ih =>
    rw [spanQualifiers] at h ⊢
    split at h
    · rename_i ht
      rw [if_pos ht, List.cons_append, spanQualifiers, if_pos ht, ih _ h]
    · rename_i ht
      obtain ⟨rest, rfl⟩ := List.head?_eq_some_iff.1 h
      rw [if_neg ht, List.nil_append, spanQualifiers, if_neg ht]

theorem spanVisibility_ahead : SpansAhead spanVisibility := by
  intro tokens rest h
  cases tokens with
  | nil =>
    rw [List.head?_eq_none_iff.1 h]
    rfl
  | cons t more =>
    by_cases ht : t.isWord "pub" = true
    · by_cases hscope : more.head?.any (Token.isGroup .paren) = true
      · obtain ⟨scope, hmore, hparen⟩ := (Option.any_eq_true _ _).1 hscope
        obtain ⟨more, rfl⟩ := List.head?_eq_some_iff.1 hmore
        rw [spanVisibility_cons, if_pos ht, if_pos hscope]
        exact (spanVisibility_cons t (scope :: rest)).trans ((if_pos ht).trans (if_pos hparen))
      · rw [spanVisibility_cons, if_pos ht, if_neg hscope] at h ⊢
        rw [← h] at hscope
        exact (spanVisibility_cons t rest).trans ((if_pos ht).trans (if_neg hscope))
    · rw [spanVisibility_cons, if_neg ht] at h ⊢
      obtain ⟨rest, rfl⟩ := List.head?_eq_some_iff.1 h
      exact (spanVisibility_cons t rest).trans (if_neg ht)

theorem Angle.spanClosing_settled {previous : Token} {depth : Nat}
    {tokens inside after : List Token}
    (h : spanClosing previous depth tokens = some (inside, after)) (rest : List Token) :
    spanClosing previous depth (inside ++ rest) = some (inside, rest) := by
  induction tokens generalizing previous depth inside with
  | nil => cases h
  | cons t more ih =>
    rw [spanClosing] at h
    split at h
    · rename_i hdepth
      cases h
      rw [List.singleton_append, spanClosing, if_pos hdepth]
    · rename_i hdepth
      obtain ⟨⟨inside', after'⟩, hmore, heq⟩ := Option.map_eq_some_iff.1 h
      cases heq
      rw [List.cons_append, spanClosing, if_neg hdepth, ih hmore]
      rfl

/-- What the function divides off, if anything, depends on that and on the token behind. -/
def SpansAheadOption (span : List Token → Option (List Token × List Token)) : Prop :=
  ∀ {tokens own after}, span tokens = some (own, after) → ∀ rest, rest.head? = after.head? →
    span (own ++ rest) = some (own, rest)

theorem Angle.spanGenerics_ahead : SpansAheadOption spanGenerics := by
  intro tokens own after h rest hhead
  cases tokens with
  | nil =>
    cases h
    rw [List.head?_eq_none_iff.1 hhead]
    rfl
  | cons t more =>
    rw [spanGenerics] at h
    split at h
    · rename_i ht
      obtain ⟨⟨inside, after'⟩, hclosing, heq⟩ := Option.map_eq_some_iff.1 h
      cases heq
      rw [List.cons_append, spanGenerics, if_pos ht, spanClosing_settled hclosing]
      rfl
    · rename_i ht
      cases h
      obtain ⟨rest, rfl⟩ := List.head?_eq_some_iff.1 hhead
      rw [List.nil_append, spanGenerics, if_neg ht]

theorem spanInvocation_ahead : SpansAheadOption spanInvocation := by
  intro tokens own after h rest hhead
  fun_induction spanInvocation tokens generalizing own with
  | case1 => cases h
  | case2 segment mark more hsegment hmark =>
    cases h
    obtain ⟨rest, rfl⟩ := List.head?_eq_some_iff.1 hhead
    cases rest <;> simp [spanInvocation, hmark, Bool.not_eq_true _ ▸ hsegment]
  | case3 segment mark hsegment hmark second more hseparator ih =>
    obtain ⟨⟨path, after'⟩, hmore, heq⟩ := Option.map_eq_some_iff.1 h
    cases heq
    simp only [List.cons_append, spanInvocation, hsegment, hmark, hseparator, ih hmore]
    rfl
  | case4 => cases h
  | case5 => cases h
  | case6 => cases h

/-- A path ends in front of a mark. -/
theorem spanInvocation_parts {tokens path after : List Token}
    (h : spanInvocation tokens = some (path, after)) : path ≠ [] ∧ after ≠ [] := by
  fun_induction spanInvocation tokens generalizing path with
  | case1 => cases h
  | case2 =>
    cases h
    simp
  | case3 _ _ _ _ _ _ _ ih =>
    obtain ⟨⟨path', after'⟩, hmore, heq⟩ := Option.map_eq_some_iff.1 h
    cases heq
    exact ⟨by simp, (ih hmore).2⟩
  | case4 => cases h
  | case5 => cases h
  | case6 => cases h

theorem spanInvocationPath_ahead : SpansAheadOption spanInvocationPath := by
  intro tokens own after h rest hhead
  unfold spanInvocationPath at h
  split at h
  · rename_i first second more
    split at h
    · rename_i hcolon
      obtain ⟨⟨path, after'⟩, hmore, heq⟩ := Option.map_eq_some_iff.1 h
      cases heq
      rw [List.cons_append, List.cons_append, spanInvocationPath, if_pos hcolon,
        spanInvocation_ahead hmore rest hhead]
      rfl
    · rename_i hcolon
      have happend := spanInvocation_append h
      have hahead := spanInvocation_ahead h rest hhead
      obtain ⟨hpath, hafter⟩ := spanInvocation_parts h
      obtain ⟨t, own, rfl⟩ := List.exists_cons_of_ne_nil hpath
      obtain ⟨u, after, rfl⟩ := List.exists_cons_of_ne_nil hafter
      obtain ⟨rest, rfl⟩ := List.head?_eq_some_iff.1 hhead
      obtain rfl : t = first := (List.cons.inj happend).1
      cases own with
      | nil => rw [List.singleton_append, spanInvocationPath, if_neg hcolon]; exact hahead
      | cons v own =>
        rw [List.cons_append, List.cons_append, spanInvocationPath, if_neg hcolon]
        exact hahead
  · cases h

/-! ## Readers and what is behind -/

namespace Take

variable {α β : Type}

/-- What the reader gives depends on the tokens that it takes and on the one behind them. -/
def Ahead (r : Take α) : Prop :=
  ∀ tokens a rest, r tokens = .ok (a, rest) → ∃ own, tokens = own ++ rest ∧
    ∀ rest', rest'.head? = rest.head? → r (own ++ rest') = .ok (a, rest')

/-- What the reader gives depends on the tokens that it takes. Behind them there may be whatever
the result allows. -/
def Settled (allows : α → List Token → Prop) (r : Take α) : Prop :=
  ∀ tokens a rest, r tokens = .ok (a, rest) → ∃ own, tokens = own ++ rest ∧
    ∀ rest', allows a rest' → r (own ++ rest') = .ok (a, rest')

/-- What the reader gives depends on the tokens that it takes, and one of these is neither a word
nor a literal. -/
def Closed (allows : α → List Token → Prop) (r : Take α) : Prop :=
  ∀ tokens a rest, r tokens = .ok (a, rest) → ∃ own, tokens = own ++ rest ∧
    own.any Token.isSymbol = true ∧ ∀ rest', allows a rest' → r (own ++ rest') = .ok (a, rest')

/-- Anything is allowed. -/
def anything (_ : α) (_ : List Token) : Prop := True

theorem Closed.settled {allows : α → List Token → Prop} {r : Take α} (h : Closed allows r) :
    Settled allows r := by
  intro tokens a rest hr
  obtain ⟨own, htokens, -, hown⟩ := h tokens a rest hr
  exact ⟨own, htokens, hown⟩

theorem settled_pure (allows : α → List Token → Prop) (a : α) :
    Settled allows (pure a : Take α) := by
  intro tokens b rest h
  have hresult : Except.ok (a, tokens) = Except.ok (b, rest) := h
  cases hresult
  exact ⟨[], rfl, fun rest' _ => rfl⟩

theorem ahead_pure (a : α) : Ahead (pure a : Take α) := by
  intro tokens b rest h
  obtain ⟨own, htokens, hown⟩ := settled_pure anything a tokens b rest h
  exact ⟨own, htokens, fun rest' _ => hown rest' trivial⟩

/-- What looks ahead twice looks ahead. -/
theorem Ahead.bind {r : Take α} {f : α → Take β} (hr : Ahead r) (hf : ∀ a, Ahead (f a)) :
    Ahead (r >>= f) := by
  intro tokens b rest h
  obtain ⟨a, middle, hfirst, hsecond⟩ := bind_eq_ok h
  obtain ⟨own, rfl, hown⟩ := hr _ _ _ hfirst
  obtain ⟨more, rfl, hmore⟩ := hf a _ _ _ hsecond
  refine ⟨own ++ more, (List.append_assoc ..).symm, fun rest' hhead => ?_⟩
  have hnext : (more ++ rest').head? = (more ++ rest).head? := by
    rw [List.head?_append, List.head?_append, hhead]
  rw [List.append_assoc, bind_ok (hown _ hnext)]
  exact hmore rest' hhead

/-- What looks ahead is closed by what comes next: the token that it looked at is taken. -/
theorem Ahead.bind_closed {allows : β → List Token → Prop} {r : Take α} {f : α → Take β}
    (hr : Ahead r) (hf : ∀ a, Closed allows (f a)) : Closed allows (r >>= f) := by
  intro tokens b rest h
  obtain ⟨a, middle, hfirst, hsecond⟩ := bind_eq_ok h
  obtain ⟨own, rfl, hown⟩ := hr _ _ _ hfirst
  obtain ⟨more, rfl, hsymbol, hmore⟩ := hf a _ _ _ hsecond
  refine ⟨own ++ more, (List.append_assoc ..).symm, ?_, fun rest' hallows => ?_⟩
  · rw [List.any_append, hsymbol, Bool.or_true]
  · have hnext : (more ++ rest').head? = (more ++ rest).head? := by
      cases more with
      | nil => cases hsymbol
      | cons t more => rfl
    rw [List.append_assoc, bind_ok (hown _ hnext)]
    exact hmore rest' hallows

theorem Closed.bind {allows : β → List Token → Prop} {r : Take α} {f : α → Take β}
    (hr : Closed anything r) (hf : ∀ a, Settled allows (f a)) : Closed allows (r >>= f) := by
  intro tokens b rest h
  obtain ⟨a, middle, hfirst, hsecond⟩ := bind_eq_ok h
  obtain ⟨own, rfl, hsymbol, hown⟩ := hr _ _ _ hfirst
  obtain ⟨more, rfl, hmore⟩ := hf a _ _ _ hsecond
  refine ⟨own ++ more, (List.append_assoc ..).symm, ?_, fun rest' hallows => ?_⟩
  · rw [List.any_append, hsymbol, Bool.true_or]
  · rw [List.append_assoc, bind_ok (hown _ trivial)]
    exact hmore rest' hallows

/-- The token that is taken is the first one, and it passes the test. -/
theorem token_cases {p : Token → Bool} {expected : Text} {tokens rest : List Token} {t : Token}
    (h : token p expected tokens = .ok (t, rest)) : tokens = t :: rest ∧ p t = true := by
  cases tokens with
  | nil => cases h
  | cons u more =>
    rw [token] at h
    split at h
    · rename_i hu
      cases h
      exact ⟨rfl, hu⟩
    · cases h

theorem token_cons {p : Token → Bool} {t : Token} (h : p t = true) (expected : Text)
    (rest : List Token) : token p expected (t :: rest) = .ok (t, rest) :=
  if_pos h

theorem ahead_token (p : Token → Bool) (expected : Text) : Ahead (token p expected) := by
  intro tokens t rest h
  obtain ⟨rfl, ht⟩ := token_cases h
  exact ⟨[t], rfl, fun rest' _ => token_cons ht expected rest'⟩

theorem closed_token {p : Token → Bool} (hp : ∀ t, p t = true → t.isSymbol = true)
    (expected : Text) : Closed anything (token p expected) := by
  intro tokens t rest h
  obtain ⟨rfl, ht⟩ := token_cases h
  exact ⟨[t], rfl, by simp [hp t ht], fun rest' _ => token_cons ht expected rest'⟩

/-- A token that is taken is looked at, and so is one that is left. -/
theorem optional_cases {p : Token → Bool} {tokens rest : List Token} {o : Option Token}
    (h : optional p tokens = .ok (o, rest)) :
    (∃ t, o = some t ∧ p t = true ∧ tokens = t :: rest) ∨
      o = none ∧ tokens = rest ∧ rest.head?.any p = false := by
  cases tokens with
  | nil =>
    cases h
    exact .inr ⟨rfl, rfl, rfl⟩
  | cons t more =>
    rw [optional] at h
    split at h
    · rename_i ht
      cases h
      exact .inl ⟨t, rfl, ht, rfl⟩
    · rename_i ht
      cases h
      exact .inr ⟨rfl, rfl, Bool.eq_false_iff.2 ht⟩

theorem optional_of_head {p : Token → Bool} {tokens : List Token}
    (h : tokens.head?.any p = false) : optional p tokens = .ok (none, tokens) := by
  cases tokens with
  | nil => rfl
  | cons t more => exact if_neg (Bool.eq_false_iff.1 h)

theorem optional_cons {p : Token → Bool} {t : Token} (h : p t = true) (rest : List Token) :
    optional p (t :: rest) = .ok (some t, rest) :=
  if_pos h

theorem ahead_optional (p : Token → Bool) : Ahead (optional p) := by
  intro tokens o rest h
  rcases optional_cases h with ⟨t, rfl, ht, rfl⟩ | ⟨rfl, rfl, hhead⟩
  · exact ⟨[t], rfl, fun rest' _ => optional_cons ht rest'⟩
  · exact ⟨[], rfl, fun rest' hrest => optional_of_head ((congrArg _ hrest).trans hhead)⟩

/-- A choice by the next token is closed if that token is taken or what follows is closed. -/
theorem closed_optional_bind {p : Token → Bool} (hp : ∀ t, p t = true → t.isSymbol = true)
    {allows : β → List Token → Prop} {f : Option Token → Take β}
    (hsome : ∀ t, Settled allows (f (some t))) (hnone : Closed allows (f none)) :
    Closed allows (optional p >>= f) := by
  intro tokens b rest h
  obtain ⟨o, middle, hfirst, hsecond⟩ := bind_eq_ok h
  rcases optional_cases hfirst with ⟨t, rfl, ht, rfl⟩ | ⟨rfl, rfl, hhead⟩
  · obtain ⟨own, rfl, hown⟩ := hsome t _ _ _ hsecond
    refine ⟨t :: own, rfl, by simp [hp t ht], fun rest' hallows => ?_⟩
    rw [List.cons_append, bind_ok (optional_cons ht _)]
    exact hown rest' hallows
  · obtain ⟨own, rfl, hsymbol, hown⟩ := hnone _ _ _ hsecond
    refine ⟨own, rfl, hsymbol, fun rest' hallows => ?_⟩
    have hnext : (own ++ rest').head?.any p = false := by
      cases own with
      | nil => cases hsymbol
      | cons t own => exact hhead
    rw [bind_ok (optional_of_head hnext)]
    exact hown rest' hallows

theorem ahead_peek : Ahead peek := by
  intro tokens o rest h
  cases h
  exact ⟨[], rfl, fun rest' hrest => by rw [List.nil_append, peek, hrest]⟩

theorem ahead_part {span : List Token → List Token × List Token}
    (happend : ∀ tokens, (span tokens).1 ++ (span tokens).2 = tokens) (h : SpansAhead span) :
    Ahead (part span) := by
  intro tokens own rest hr
  have hspan : span tokens = (own, rest) := Except.ok.inj hr
  have hahead := h tokens
  rw [hspan] at hahead
  refine ⟨own, ?_, fun rest' hrest => congrArg Except.ok (hahead rest' hrest)⟩
  rw [← happend tokens, hspan]

theorem ahead_of_option {span : List Token → Option (List Token × List Token)}
    {missing : List Token → Missing} {r : Take (List Token)}
    (hr : ∀ tokens, r tokens = match span tokens with
      | some result => .ok result
      | none => .error (missing tokens))
    (happend : ∀ {tokens own rest}, span tokens = some (own, rest) → own ++ rest = tokens)
    (h : SpansAheadOption span) : Ahead r := by
  intro tokens own rest hok
  rw [hr] at hok
  split at hok
  · rename_i hspan
    cases hok
    refine ⟨own, (happend hspan).symm, fun rest' hrest => ?_⟩
    rw [hr, h hspan rest' hrest]
  · cases hok

theorem ahead_upTo (stop : Token → Bool) : Ahead (upTo stop) :=
  ahead_part (Angle.spanUntil_append stop none 0) (Angle.spanUntil_ahead stop none 0)

theorem ahead_upToAny (stop : Token → Bool) : Ahead (upToAny stop) :=
  ahead_part (fun _ => List.takeWhile_append_dropWhile) (takeWhile_ahead _)

theorem ahead_whereClause (stop : Token → Bool) : Ahead (whereClause stop) := by
  refine (ahead_optional _).bind fun keyword => ?_
  cases keyword with
  | none => exact ahead_pure _
  | some keyword => exact (ahead_upTo stop).bind fun _ => ahead_pure _

theorem ahead_generics : Ahead generics :=
  ahead_of_option (fun _ => rfl) Angle.spanGenerics_append Angle.spanGenerics_ahead

end Take

/-! ## The readers of shapes -/

namespace Shape

open Take

/-- Whether a semicolon right behind the shape would have been taken along: it is an invocation with
arguments in braces and no semicolon. -/
def admitsSemicolon : Shape → Bool
  | invocation _ _ _ body none => body.isGroup .brace
  | _ => false

/-- The tokens may come behind the shape. -/
def Allows (shape : Shape) (rest : List Token) : Prop :=
  shape.admitsSemicolon = true → rest.head?.any (Token.isPunct ';') = false

section Readers

variable (s : Settings) (pointer : Text)

theorem ahead_word (w : Text) : Ahead (word w) := ahead_token _ _

theorem ahead_ident (expected : Text) : Ahead (ident expected) := ahead_token _ _

theorem ahead_qualifiers (words : List Text) : Ahead (takeQualifiers words) :=
  ahead_part (spanQualifiers_append words none) (spanQualifiers_ahead words none)

/-- A semicolon at the end closes a reader. -/
theorem closed_semicolon {α : Type} {allows : α → List Token → Prop} (f : Token → α) :
    Closed allows (punct ';' >>= fun t => pure (f t)) :=
  (closed_token (fun _ => Token.isSymbol_of_isPunct) _).bind fun _ => settled_pure _ _

/-- A group at the end closes a reader. -/
theorem closed_group {α : Type} {allows : α → List Token → Prop} (d : Delimiter) (f : Token → α) :
    Closed allows (group d >>= fun t => pure (f t)) :=
  (closed_token (fun _ => Token.isSymbol_of_isGroup) _).bind fun _ => settled_pure _ _

theorem closed_constant : Closed Allows takeConstant :=
  (ahead_word _).bind_closed fun _ => (ahead_ident _).bind_closed fun _ =>
    (ahead_upTo _).bind_closed fun _ => (ahead_upToAny _).bind_closed fun _ => closed_semicolon _

theorem closed_static : Closed Allows takeStatic :=
  (ahead_word _).bind_closed fun _ => (ahead_optional _).bind_closed fun _ =>
    (ahead_ident _).bind_closed fun _ => (ahead_upTo _).bind_closed fun _ =>
      (ahead_upToAny _).bind_closed fun _ => closed_semicolon _

theorem closed_function : Closed Allows takeFunction := by
  refine (ahead_qualifiers _).bind_closed fun _ => (ahead_word _).bind_closed fun _ =>
    (ahead_ident _).bind_closed fun _ => ahead_generics.bind_closed fun _ =>
      (ahead_token _ _).bind_closed fun _ => (ahead_upTo _).bind_closed fun _ =>
        (ahead_whereClause _).bind_closed fun _ => ?_
  refine (closed_token (fun t ht => ?_) _).bind fun _ => settled_pure _ _
  rcases Bool.or_eq_true_iff.1 ht with ht | ht
  · exact Token.isSymbol_of_isGroup ht
  · exact Token.isSymbol_of_isPunct ht

theorem closed_enumeration : Closed Allows (takeEnumeration s pointer) :=
  (ahead_word _).bind_closed fun _ => (ahead_ident _).bind_closed fun _ =>
    ahead_generics.bind_closed fun _ => (ahead_whereClause _).bind_closed fun _ => closed_group _ _

theorem closed_recordBody : Closed anything (takeRecordBody s pointer) := by
  refine (ahead_optional _).bind_closed fun g => ?_
  cases g with
  | some g => exact (ahead_whereClause _).bind_closed fun _ => closed_semicolon _
  | none =>
    refine (ahead_whereClause _).bind_closed fun _ => ?_
    exact closed_optional_bind (fun _ => Token.isSymbol_of_isGroup) (fun _ => settled_pure _ _)
      (closed_semicolon _)

theorem closed_record : Closed Allows (takeRecord s pointer) :=
  (ahead_word _).bind_closed fun _ => (ahead_ident _).bind_closed fun _ =>
    ahead_generics.bind_closed fun _ => (closed_recordBody s pointer).bind fun _ => settled_pure _ _

theorem closed_trait : Closed Allows (takeTrait s pointer) := by
  refine (ahead_qualifiers _).bind_closed fun _ => (ahead_word _).bind_closed fun _ =>
    (ahead_ident _).bind_closed fun _ => ahead_generics.bind_closed fun _ =>
      ahead_peek.bind_closed fun _ => ?_
  split
  · exact (ahead_upTo _).bind_closed fun _ => (ahead_whereClause _).bind_closed fun _ =>
      closed_semicolon _
  · exact (ahead_upTo _).bind_closed fun _ => (ahead_whereClause _).bind_closed fun _ =>
      closed_group _ _

theorem closed_typeAlias : Closed Allows takeTypeAlias :=
  (ahead_word _).bind_closed fun _ => (ahead_ident _).bind_closed fun _ =>
    ahead_generics.bind_closed fun _ => (ahead_upToAny _).bind_closed fun _ => closed_semicolon _

theorem ahead_importTree : Ahead takeImportTree :=
  (ahead_token _ _).bind fun _ => (ahead_upToAny _).bind fun _ => ahead_pure _

theorem closed_use : Closed Allows takeUse :=
  (ahead_word _).bind_closed fun _ => ahead_importTree.bind_closed fun _ => closed_semicolon _

theorem ahead_alias : Ahead takeAlias := by
  refine (ahead_optional _).bind fun keyword => ?_
  cases keyword with
  | none => exact ahead_pure _
  | some keyword => exact (ahead_ident _).bind fun _ => ahead_pure _

theorem closed_externCrate : Closed Allows takeExternCrate :=
  (ahead_word _).bind_closed fun _ => (ahead_word _).bind_closed fun _ =>
    (ahead_ident _).bind_closed fun _ => ahead_alias.bind_closed fun _ => closed_semicolon _

theorem ahead_invocationPath : Ahead takeInvocationPath :=
  ahead_of_option (fun _ => rfl) spanInvocationPath_append spanInvocationPath_ahead

/-- Where a semicolon may be taken along or not, the shape tells what comes behind. -/
theorem settled_terminator (path : List Token) (bang : Token) (name : Option Token) {body : Token}
    (hbody : body.isGroup .brace = true) :
    Settled Allows (optional (Token.isPunct ';') >>= fun terminator =>
      pure (.invocation path bang name body terminator)) := by
  intro tokens shape rest h
  obtain ⟨o, middle, hfirst, hsecond⟩ := bind_eq_ok h
  cases hsecond
  rcases optional_cases hfirst with ⟨t, rfl, ht, rfl⟩ | ⟨rfl, rfl, -⟩
  · refine ⟨[t], rfl, fun rest' _ => ?_⟩
    rw [List.singleton_append, bind_ok (optional_cons ht rest')]
    rfl
  · refine ⟨[], rfl, fun rest' hallows => ?_⟩
    rw [List.nil_append, bind_ok (optional_of_head (hallows hbody))]
    rfl

theorem closed_invocation : Closed Allows takeInvocation := by
  refine ahead_invocationPath.bind_closed fun path => (ahead_token _ _).bind_closed fun bang =>
    (ahead_optional _).bind_closed fun name => ?_
  refine (closed_token (fun t ht => ?_) _).bind fun body => ?_
  · rcases Bool.or_eq_true_iff.1 ht with ht | ht
    · rcases Bool.or_eq_true_iff.1 ht with ht | ht
      · exact Token.isSymbol_of_isGroup ht
      · exact Token.isSymbol_of_isGroup ht
    · exact Token.isSymbol_of_isGroup ht
  · split
    · rename_i hbody
      exact settled_terminator path bang name hbody
    · exact (closed_semicolon _).settled

theorem exists_path_of_take {tokens rest : List Token} {shape : Shape}
    (h : take s pointer .invocation tokens = .ok (shape, rest)) :
    ∃ result, spanInvocationPath tokens = some result := by
  obtain ⟨path, middle, hpath, -⟩ := bind_eq_ok h
  rw [takeInvocationPath] at hpath
  split at hpath
  · rename_i result hspan
    exact ⟨result, hspan⟩
  · cases hpath

/-- A declaration is read from its own tokens. -/
theorem closed_take (kind : Kind) : Closed Allows (take s pointer kind) := by
  cases kind with
  | constant => exact closed_constant
  | static => exact closed_static
  | function => exact closed_function
  | enumeration => exact closed_enumeration s pointer
  | record => exact closed_record s pointer
  | trait => exact closed_trait s pointer
  | traitAlias => exact closed_trait s pointer
  | typeAlias => exact closed_typeAlias
  | use => exact closed_use
  | externCrate => exact closed_externCrate
  | invocation => exact closed_invocation

end Readers

end Shape

/-! ## Kinds -/

namespace Kind

/-- Qualifiers end at a symbol at the latest, whatever comes behind it. -/
theorem spanQualifiers_symbol (words : List Text) (previous : Option Token) {own : List Token}
    (h : own.any Token.isSymbol = true) :
    ∃ qualifiers keyword more, ∀ rest,
      spanQualifiers words previous (own ++ rest) = (qualifiers, keyword :: (more ++ rest)) := by
  induction own generalizing previous with
  | nil => cases h
  | cons t own ih =>
    by_cases ht : (t.isOneOf words || (t.isLiteral && previous.any (Token.isWord "extern"))) = true
    · have hsymbol : t.isSymbol = false := by
        rcases Bool.or_eq_true_iff.1 ht with hword | hliteral
        · exact Token.isSymbol_of_isOneOf hword
        · rw [Token.isSymbol, (Bool.and_eq_true_iff.1 hliteral).1, Bool.not_true, Bool.and_false]
      rw [List.any_cons, hsymbol, Bool.false_or] at h
      obtain ⟨qualifiers, keyword, more, hspan⟩ := ih (some t) h
      refine ⟨t :: qualifiers, keyword, more, fun rest => ?_⟩
      rw [List.cons_append, spanQualifiers, if_pos ht, hspan]
    · refine ⟨[], t, own, fun rest => ?_⟩
      rw [List.cons_append, spanQualifiers, if_neg ht]

/-- A test of the first two tokens, if the first one has to be a word. -/
theorem second_of_symbol {p : Token → Bool} (w : Text) {own : List Token}
    (h : own.any Token.isSymbol = true) (rest rest' : List Token) :
    ((own ++ rest).head?.any (Token.isWord w) && (own ++ rest).tail.head?.any p) =
      ((own ++ rest').head?.any (Token.isWord w) && (own ++ rest').tail.head?.any p) := by
  cases own with
  | nil => cases h
  | cons t own =>
    cases own with
    | cons u own => rfl
    | nil =>
      have hsymbol : t.isSymbol = true := by simpa using h
      simp [Token.isWord_of_isIdent (Token.isIdent_of_isSymbol hsymbol)]

/-- The kind of a declaration is told by its own tokens. -/
theorem select_append {s : Settings} {pointer : Text} {kind : Kind} {own rest rest' : List Token}
    {shape : Shape} (hselect : select (own ++ rest) = some kind)
    (hsymbol : own.any Token.isSymbol = true)
    (htake : Shape.take s pointer kind (own ++ rest') = .ok (shape, rest')) :
    select (own ++ rest') = some kind := by
  obtain ⟨qualifiers, keyword, more, hspan⟩ :=
    spanQualifiers_symbol (functionQualifiers ++ traitQualifiers) none hsymbol
  rw [select_eq, second_of_symbol _ hsymbol rest rest', second_of_symbol _ hsymbol rest rest',
    hspan] at hselect
  rw [select_eq, hspan]
  split at hselect
  · rename_i hextern
    rw [if_pos hextern, hselect]
  rename_i hextern
  split at hselect
  · rename_i hconst
    rw [if_neg hextern, if_pos hconst, hselect]
  rename_i hconst
  rw [if_neg hextern, if_neg hconst]
  simp only [List.head?_cons, Option.bind_some] at hselect ⊢
  split at hselect
  · rename_i hempty
    rw [if_pos hempty]
    cases hkeyword : ofKeyword keyword with
    | some kind' =>
      rw [hkeyword, Option.some_or] at hselect
      rw [Option.some_or, hselect]
    | none =>
      rw [hkeyword, Option.none_or] at hselect
      obtain ⟨_, -, rfl⟩ := Option.map_eq_some_iff.1 hselect
      obtain ⟨result, hpath⟩ := Shape.exists_path_of_take s pointer htake
      rw [hpath]
      rfl
  · rename_i hempty
    rw [if_neg hempty, hselect]

/-- A declaration starts with a word, or with the colon of a path. -/
theorem head_of_select {t : Token} {rest : List Token} {kind : Kind}
    (h : select (t :: rest) = some kind) : t.isIdent = true ∨ t.isJoint ':' = true := by
  by_cases hident : t.isIdent = true
  · exact .inl hident
  · right
    have hword := Token.isWord_of_isIdent (Bool.eq_false_iff.2 hident)
    have hspan : spanQualifiers (functionQualifiers ++ traitQualifiers) none (t :: rest) =
        ([], t :: rest) := by
      have hone : t.isOneOf (functionQualifiers ++ traitQualifiers) = false := by
        rw [Token.isOneOf, Option.not_isSome_iff_eq_none.1 hident]
        rfl
      rw [spanQualifiers, hone, Option.any_none, Bool.and_false]
      rfl
    have hkeyword : ofKeyword t = none := by
      simp only [ofKeyword, hword, Bool.false_eq_true, ↓reduceIte]
    rw [select_eq, hspan] at h
    simp only [List.head?_cons, Option.any_some, hword, Bool.false_and, Bool.false_eq_true,
      ↓reduceIte, List.isEmpty_nil, Option.bind_some, hkeyword, Option.none_or] at h
    obtain ⟨result, hpath, -⟩ := Option.map_eq_some_iff.1 h
    cases rest with
    | nil => cases hpath
    | cons second more =>
      rw [spanInvocationPath] at hpath
      split at hpath
      · assumption
      · cases more <;> simp [spanInvocation, hident] at hpath

end Kind

/-! ## Items -/

/-- No annotation starts with a word or a colon. -/
theorem Form.read_of_head {t : Token} (h : t.isIdent = true ∨ t.isJoint ':' = true)
    (rest : List Token) : read (t :: rest) = none := by
  have hhash : t.isPunct '#' = false ∧ t.isDoc = false := by
    rcases h with hident | hcolon
    · cases t with
      | group => cases hident
      | atom leading pos a => cases a <;> first | exact ⟨rfl, rfl⟩ | cases hident
    · cases t with
      | group => cases hcolon
      | atom leading pos a =>
        cases a with
        | punct c joint =>
          obtain rfl : c = ':' := of_decide_eq_true (Bool.and_eq_true_iff.1 hcolon).1
          exact ⟨rfl, rfl⟩
        | _ => cases hcolon
  unfold read
  split
  · rename_i heq
    cases heq
    cases hhash.2
  · rename_i heq
    cases heq
    rw [hhash.1]
    rfl
  · rfl

/-- A visibility starts with a word. -/
theorem isIdent_of_spanVisibility {tokens more : List Token} {t : Token}
    (h : (spanVisibility tokens).1 = t :: more) : t.isIdent = true := by
  cases tokens with
  | nil => cases h
  | cons u rest =>
    rw [spanVisibility_cons] at h
    by_cases hpub : u.isWord "pub" = true
    · rw [if_pos hpub] at h
      have htoken : u = t := by
        split at h
        · exact (List.cons.inj h).1
        · exact (List.cons.inj h).1
      rw [← htoken, Token.isIdent, beq_iff_eq.1 hpub]
      rfl
    · rw [if_neg hpub] at h
      cases h

namespace Item

/-- A declaration is read from its own tokens, the annotations and the visibility in front
included. -/
theorem parse_own {s : Settings} {pointer : Text} {tokens rest : List Token} {d : Declaration}
    (h : parse s pointer tokens = (.declared d, rest)) :
    ∃ own, tokens = own ++ rest ∧ ∀ rest', d.shape.Allows rest' →
      parse s pointer (own ++ rest') = (.declared d, rest') := by
  rcases parse_cases s pointer tokens with ⟨-, d', -, hparse⟩ |
    ⟨kind, shape, rest, hselect, htake, hparse⟩
  · rw [hparse] at h
    cases h
  rw [hparse] at h
  cases h
  obtain ⟨own, hbody, hsymbol, hown⟩ := Shape.closed_take s pointer kind _ _ _ htake
  obtain ⟨t, more, rfl⟩ : ∃ t more, own = t :: more := by
    cases own with
    | nil => cases hsymbol
    | cons t more => exact ⟨t, more, rfl⟩
  rw [hbody] at hselect
  have hvisible := spanVisibility_append (Attachment.scan s pointer tokens).2
  refine ⟨(Attachment.scan s pointer tokens).1.flatMap Attachment.tokens ++
    ((spanVisibility (Attachment.scan s pointer tokens).2).1 ++ t :: more), ?_,
    fun rest' hallows => ?_⟩
  · rw [List.append_assoc, List.append_assoc, ← hbody, hvisible, Attachment.scan_tokens]
  · have hvisibility := spanVisibility_ahead (Attachment.scan s pointer tokens).2
      (t :: more ++ rest') (by rw [hbody]; rfl)
    rw [List.append_assoc, List.append_assoc]
    refine parse_of_take (Attachment.scan_behind s pointer tokens ?_) hvisibility
      (Kind.select_append hselect hsymbol (hown rest' hallows)) (hown rest' hallows)
    cases hfirst : (spanVisibility (Attachment.scan s pointer tokens).2).1 with
    | nil => exact Form.read_of_head (Kind.head_of_select hselect) _
    | cons u visibility => exact Form.read_of_head (.inl (isIdent_of_spanVisibility hfirst)) _

/-! ## The index behind an item -/

/-- The index behind the item that starts at the given index. -/
def stop (s : Settings) (pointer : Text) (tokens : List Token) (start : Nat) : Nat :=
  tokens.length - (parse s pointer (tokens.drop start)).2.length

theorem drop_stop (s : Settings) (pointer : Text) (tokens : List Token) (start : Nat) :
    (parse s pointer (tokens.drop start)).2 = tokens.drop (stop s pointer tokens start) :=
  List.suffix_iff_eq_drop.1
    ((parse_suffix s pointer (tokens.drop start)).trans (List.drop_suffix start tokens))

/-- An item ends behind its start. -/
theorem lt_stop (s : Settings) (pointer : Text) {tokens : List Token} {start : Nat}
    (h : start < tokens.length) : start < stop s pointer tokens start := by
  have hne : tokens.drop start ≠ [] := by
    rw [Ne, List.drop_eq_nil_iff]
    omega
  have hlt := parse_length_lt s pointer hne
  rw [List.length_drop] at hlt
  rw [stop]
  omega

/-- A list that agrees with another one from `start` to `stop` has the same tokens there. -/
theorem drop_of_agree {tokens tokens' : List Token} {start stop : Nat} (hle : start ≤ stop)
    (h : ∀ i, start ≤ i → i < stop → tokens'[i]? = tokens[i]?) :
    tokens'.drop start = (tokens.drop start).take (stop - start) ++ tokens'.drop stop := by
  have htake :
      (tokens'.drop start).take (stop - start) = (tokens.drop start).take (stop - start) := by
    apply List.ext_getElem?
    intro k
    rw [List.getElem?_take, List.getElem?_take, List.getElem?_drop, List.getElem?_drop]
    split
    · exact h (start + k) (by omega) (by omega)
    · rfl
  have hdrop : (tokens'.drop start).drop (stop - start) = tokens'.drop stop := by
    rw [List.drop_drop, Nat.add_sub_cancel' hle]
  rw [← htake, ← hdrop, List.take_append_drop]

theorem length_parseFrom_le (s : Settings) (index : Nat) (tokens : List Token) :
    (parseFrom s index tokens).length ≤ tokens.length := by
  fun_induction parseFrom s index tokens with
  | case1 => exact Nat.le_refl _
  | case2 index t rest result ih =>
    have hlt := parse_length_lt s (pointerOf index) (List.cons_ne_nil t rest)
    rw [List.length_cons]
    exact Nat.lt_of_le_of_lt ih hlt

/-- There are no more items than tokens. -/
theorem length_parseAll_le (s : Settings) (tokens : List Token) :
    (parseAll s tokens).length ≤ tokens.length := by
  have hlength := congrArg List.length (headForms_append tokens)
  rw [List.length_append] at hlength
  rcases parseAll_cases s tokens with ⟨-, hparse⟩ | ⟨hne, hparse⟩
  · have hle := length_parseFrom_le s 0 (behindHead tokens)
    rw [hparse]
    omega
  · have hle := length_parseFrom_le s 1 (behindHead tokens)
    have hpos : 0 < ((headForms tokens).flatMap Form.tokens).length := by
      obtain ⟨f, forms, hforms⟩ := List.exists_cons_of_ne_nil hne
      rw [hforms, List.flatMap_cons, List.length_append]
      have := List.length_pos_iff.2 f.tokens_ne_nil
      omega
    rw [hparse, List.length_cons]
    omega

/-- What an item is read as from the tokens up to its end stays, whatever comes in front and
behind. -/
theorem parse_of_agree {s : Settings} {pointer : Text} {tokens tokens' : List Token} {start : Nat}
    {d : Declaration} (hstart : start < tokens.length)
    (hparse : (parse s pointer (tokens.drop start)).1 = .declared d)
    (hagree : ∀ i, start ≤ i → i < stop s pointer tokens start → tokens'[i]? = tokens[i]?)
    (hallows : d.shape.Allows (tokens'.drop (stop s pointer tokens start))) :
    parse s pointer (tokens'.drop start) =
      (.declared d, tokens'.drop (stop s pointer tokens start)) := by
  have hlt := lt_stop s pointer hstart
  obtain ⟨own, hown, hsame⟩ := parse_own (Prod.ext hparse (drop_stop s pointer tokens start))
  have htake : (tokens.drop start).take (stop s pointer tokens start - start) = own := by
    have hlength := congrArg List.length hown
    rw [List.length_append, List.length_drop, List.length_drop] at hlength
    have hle : stop s pointer tokens start ≤ tokens.length := Nat.sub_le _ _
    rw [hown, List.take_append_of_le_length (by omega), List.take_of_length_le (by omega)]
  rw [drop_of_agree (Nat.le_of_lt hlt) hagree, htake]
  exact hsame _ hallows

/-- An item that starts at some token ends behind it and within the tokens, and the next item starts
where it ends, so that a file has no more items than tokens. A declaration is the same, and ends at
the same index, in every token list that has the same tokens from its start to its end, unless it is
an invocation with arguments in braces and no semicolon, and a semicolon comes behind. -/
theorem parse_extent (s : Settings) (pointer : Text) {tokens : List Token} {start : Nat}
    (hstart : start < tokens.length) :
    start < stop s pointer tokens start ∧ stop s pointer tokens start ≤ tokens.length ∧
    (parse s pointer (tokens.drop start)).2 = tokens.drop (stop s pointer tokens start) ∧
    (∀ d, (parse s pointer (tokens.drop start)).1 = .declared d → ∀ tokens' : List Token,
      (∀ i, start ≤ i → i < stop s pointer tokens start → tokens'[i]? = tokens[i]?) →
      (d.shape.admitsSemicolon = true →
        tokens'[stop s pointer tokens start]?.any (Token.isPunct ';') = false) →
      (parse s pointer (tokens'.drop start)).1 = .declared d ∧
        stop s pointer tokens' start = stop s pointer tokens start) ∧
    (∀ index, parseFrom s index (tokens.drop start) =
      (parse s (pointerOf index) (tokens.drop start)).1 ::
        parseFrom s (index + 1) (tokens.drop (stop s (pointerOf index) tokens start))) ∧
    (parseAll s tokens).length ≤ tokens.length := by
  have hlt := lt_stop s pointer hstart
  have hle : stop s pointer tokens start ≤ tokens.length := Nat.sub_le _ _
  refine ⟨hlt, hle, drop_stop s pointer tokens start, ?_, ?_, length_parseAll_le s tokens⟩
  · intro d hparse tokens' hagree hsemicolon
    have hallows : d.shape.Allows (tokens'.drop (stop s pointer tokens start)) := by
      rw [Shape.Allows, List.head?_drop]
      exact hsemicolon
    have hparse' := parse_of_agree hstart hparse hagree hallows
    -- the last token of the declaration is in both lists
    have hlast : stop s pointer tokens start - 1 < tokens'.length := by
      have hsome := hagree (stop s pointer tokens start - 1) (by omega) (by omega)
      rw [List.getElem?_eq_getElem (by omega : _ < tokens.length)] at hsome
      exact (List.getElem?_eq_some_iff.1 hsome).1
    refine ⟨by rw [hparse'], ?_⟩
    rw [stop, hparse', List.length_drop]
    omega
  · intro index
    obtain ⟨t, rest, hdrop⟩ := List.exists_cons_of_ne_nil
      (l := tokens.drop start) (by rw [Ne, List.drop_eq_nil_iff]; omega)
    rw [← drop_stop, hdrop, parseFrom]

/-- An invocation with arguments in braces and no semicolon, with other tokens around it. -/
theorem parse_extent_invocation :
    ∃ stream around d, tokenize "use a; #[k] pub m::n! \x7b x \x7d" = .ok stream ∧
      tokenize "x y z" = .ok around ∧
      (parse {} [] (stream.tokens.drop 3)).1 = .declared d ∧ d.shape.admitsSemicolon = true ∧
      stop {} [] stream.tokens 3 = 12 ∧
      (parse {} [] ((around.tokens ++ stream.tokens.drop 3 ++ around.tokens).drop 3)).1 =
        .declared d ∧
      stop {} [] (around.tokens ++ stream.tokens.drop 3 ++ around.tokens) 3 = 12 := by
  obtain ⟨stream, htokenize, htest⟩ :=
    @exists_of_tokenize "use a; #[k] pub m::n! \x7b x \x7d"
      (fun stream => (stream.tokens.length == 12 && stop {} [] stream.tokens 3 == 12) &&
        match (parse {} [] (stream.tokens.drop 3)).1 with
        | .declared d => d.shape.admitsSemicolon
        | _ => false)
      (by decide +kernel)
  obtain ⟨around, haround, htest'⟩ :=
    @exists_of_tokenize "x y z"
      (fun stream => stream.tokens.length == 3 &&
        !stream.tokens[0]?.any (Token.isPunct ';'))
      (by decide +kernel)
  simp only [Bool.and_eq_true, beq_iff_eq, Bool.not_eq_true'] at htest htest'
  obtain ⟨⟨hlength, hstop⟩, hdeclared⟩ := htest
  obtain ⟨hlength', hsemicolon⟩ := htest'
  split at hdeclared
  · rename_i d hparse
    obtain ⟨-, -, -, hsame, -⟩ := parse_extent {} [] (by omega : 3 < stream.tokens.length)
    have hlast : (around.tokens ++ stream.tokens.drop 3).length = 12 := by
      rw [List.length_append, List.length_drop, hlength, hlength']
    obtain ⟨hparse', hstop'⟩ := hsame d hparse
      (around.tokens ++ stream.tokens.drop 3 ++ around.tokens)
      (fun i hi hlt => by
        rw [hstop] at hlt
        rw [List.getElem?_append_left (by omega), List.getElem?_append_right (by omega),
          List.getElem?_drop, hlength', Nat.add_sub_cancel' hi])
      (fun _ => by
        rw [hstop, List.getElem?_append_right (by omega), hlast]
        exact hsemicolon)
    exact ⟨stream, around, d, htokenize, haround, hparse, hdeclared, hstop, hparse',
      hstop'.trans hstop⟩
  · cases hdeclared

end Item

end CondAttrs
