import CondAttrs.Proofs.Reading.Separation

/-!
# Members of traits

The members of a trait are written one behind the other with nothing to keep them apart. A member
ends with the first semicolon, or with the first group in braces that is neither inside angle
brackets nor part of a value; a semicolon right behind such a group still belongs to it. A value
begins with the first plain `=` outside angle brackets.

Members that end in this way, and of which none starts with a semicolon that the one in front of it
would take, are found again by splitting their tokens. So a trait has an attachment point for each
of them, with the annotations at its own head.

## Main definitions

* `Chunk.Stop`: a member can end at an index.
* `Chunk.Terminated`: the tokens of one member, up to its end.
* `Chunk.Apart`: a member does not take the first token of the next one.

## Main statements

* `Chunk.splitMembers_flatten`: splitting undoes joining.
* `Members.traitPoints_of_terminated`: the attachment points of a trait.
-/

namespace CondAttrs

namespace Chunk

/-! ## Where a member can end -/

/-- The number of open angle brackets in front of the token at an index. -/
def angleDepth (x : List Token) : Nat → Nat
  | 0 => 0
  | i + 1 => x[i]?.elim (angleDepth x i) fun t => Angle.step (x.take i).getLast? t (angleDepth x i)

/-- There is a plain `=` outside angle brackets at the index. -/
def BeginsValue (x : List Token) (i : Nat) : Prop :=
  angleDepth x i = 0 ∧
    x[i]?.any (fun t => isPlainEquals (x.take i).getLast? t x[i + 1]?) = true

/-- There is a semicolon at the index, or a group in braces outside angle brackets that belongs to
no value. Behind the start of a value angle brackets are operators, so the count of them is only
looked at in front of it. -/
def Stop (x : List Token) (i : Nat) : Prop :=
  x[i]?.any (Token.isPunct ';') = true ∨
    x[i]?.any (Token.isGroup .brace) = true ∧ angleDepth x i = 0 ∧ ∀ j < i, ¬ BeginsValue x j

/-- The first place where a member can end. -/
def FirstStop (x : List Token) (i : Nat) : Prop :=
  Stop x i ∧ ∀ j < i, ¬ Stop x j

/-- The tokens end with the first place where a member can end, or with one semicolon behind the
group in braces at that place. -/
def Terminated (x : List Token) : Prop :=
  ∃ i, FirstStop x i ∧ (x.length = i + 1 ∨
    x.length = i + 2 ∧ x[i]?.any (Token.isGroup .brace) = true ∧
      x[i + 1]?.any (Token.isPunct ';') = true)

/-- The second member does not start with a semicolon if the first one ends with a group in
braces. -/
def Apart (x y : List Token) : Prop :=
  x.getLast?.any (Token.isGroup .brace) = true → y.head?.any (Token.isPunct ';') = false

instance (x : List Token) : DecidablePred (BeginsValue x) :=
  fun _ => inferInstanceAs (Decidable (_ ∧ _))

instance (x : List Token) : DecidablePred (Stop x) :=
  fun _ => inferInstanceAs (Decidable (_ ∨ _))

instance (x : List Token) : DecidablePred (FirstStop x) :=
  fun _ => inferInstanceAs (Decidable (_ ∧ _))

instance : DecidableRel Apart :=
  fun _ _ => inferInstanceAs (Decidable (_ → _))

/-! ## Tokens behind a member -/

theorem angleDepth_append {x : List Token} (more : List Token) {i : Nat} (hi : i ≤ x.length) :
    angleDepth (x ++ more) i = angleDepth x i := by
  induction i with
  | zero => rfl
  | succ i ih =>
    rw [angleDepth, angleDepth, List.getElem?_append_left hi, ih (by omega),
      List.take_append_of_le_length (by omega)]

/-- Whether a value begins depends on the token behind the `=`. -/
theorem beginsValue_append {x : List Token} (more : List Token) {i : Nat} (hi : i + 1 < x.length) :
    BeginsValue (x ++ more) i ↔ BeginsValue x i := by
  rw [BeginsValue, BeginsValue, angleDepth_append more (by omega),
    List.getElem?_append_left hi, List.getElem?_append_left (Nat.lt_of_succ_lt hi),
    List.take_append_of_le_length (by omega)]

theorem stop_append {x : List Token} (more : List Token) {i : Nat} (hi : i < x.length) :
    Stop (x ++ more) i ↔ Stop x i := by
  have hvalue : (∀ j < i, ¬ BeginsValue (x ++ more) j) ↔ ∀ j < i, ¬ BeginsValue x j :=
    forall₂_congr fun j hj => not_congr (beginsValue_append more (by omega))
  rw [Stop, Stop, angleDepth_append more (by omega), List.getElem?_append_left hi, hvalue]

theorem FirstStop.append {x : List Token} {i : Nat} (h : FirstStop x i) (more : List Token)
    (hi : i < x.length) : FirstStop (x ++ more) i :=
  ⟨(stop_append more hi).2 h.1, fun j hj hstop =>
    h.2 j hj ((stop_append more (by omega)).1 hstop)⟩

/-! ## The scan of a member -/

/-- What the scan of a member knows in front of the token at an index. -/
def progress (x : List Token) : Nat → Progress
  | 0 => {}
  | i + 1 => x[i]?.elim (progress x i) fun t => (progress x i).step t x[i + 1]?

theorem progress_previous {x : List Token} {i : Nat} (hi : i ≤ x.length) :
    (progress x i).previous = (x.take i).getLast? := by
  cases i with
  | zero => rfl
  | succ i =>
    rw [progress, List.getElem?_eq_getElem hi, Option.elim_some, ← List.take_append_getElem hi,
      List.getLast?_concat]
    rfl

/-- The scan is in a value if one has begun, and otherwise it counts the open angle brackets. -/
theorem progress_spec {x : List Token} {i : Nat} (hi : i ≤ x.length) :
    ((progress x i).inValue = true ∧ ∃ j < i, BeginsValue x j) ∨
      ((progress x i).inValue = false ∧ (∀ j < i, ¬ BeginsValue x j) ∧
        (progress x i).depth = angleDepth x i) := by
  induction i with
  | zero => exact .inr ⟨rfl, by simp, rfl⟩
  | succ i ih =>
    have hprevious := progress_previous (Nat.le_of_succ_le hi)
    have hstep : progress x (i + 1) = (progress x i).step x[i] x[i + 1]? := by
      rw [progress, List.getElem?_eq_getElem hi, Option.elim_some]
    rcases ih (Nat.le_of_succ_le hi) with ⟨hvalue, j, hj, hbegins⟩ | ⟨hvalue, hnone, hdepth⟩
    · exact .inl ⟨by rw [hstep]; simp [Progress.step, hvalue], j, by omega, hbegins⟩
    · have hbegins : (progress x (i + 1)).inValue = true ↔ BeginsValue x i := by
        rw [hstep, BeginsValue, List.getElem?_eq_getElem hi]
        simp [Progress.step, hvalue, hdepth, hprevious]
      by_cases hi' : BeginsValue x i
      · exact .inl ⟨hbegins.2 hi', i, by omega, hi'⟩
      · have hfalse := Bool.eq_false_iff.2 fun htrue => hi' (hbegins.1 htrue)
        refine .inr ⟨hfalse, fun j hj => ?_, ?_⟩
        · rcases Nat.lt_succ_iff_lt_or_eq.1 hj with hj | rfl
          · exact hnone j hj
          · exact hi'
        · rw [hstep] at hfalse ⊢
          have hvalue' : ((progress x i).inValue || ((progress x i).depth = 0 &&
              isPlainEquals (progress x i).previous x[i] x[i + 1]?)) = false := hfalse
          rw [angleDepth, List.getElem?_eq_getElem hi, Option.elim_some, ← hprevious, ← hdepth]
          simp only [Progress.step, hvalue', Bool.false_eq_true, ↓reduceIte]

/-- The scan stops at the places where a member can end. -/
theorem stop_iff {x : List Token} {i : Nat} (hi : i < x.length) :
    Stop x i ↔ (x[i].isPunct ';' = true ∨ ((progress x i).depth = 0 && !(progress x i).inValue &&
      x[i].isGroup .brace) = true) := by
  rw [Stop, List.getElem?_eq_getElem hi, Option.any_some, Option.any_some]
  rcases progress_spec (Nat.le_of_lt hi) with ⟨hvalue, j, hj, hbegins⟩ | ⟨hvalue, hnone, hdepth⟩
  · simp only [hvalue, Bool.not_true, Bool.and_false, Bool.false_and, Bool.false_eq_true, or_false,
      or_iff_left_iff_imp]
    rintro ⟨-, -, hnone⟩
    exact absurd hbegins (hnone j hj)
  · simp only [hvalue, hdepth, Bool.not_false, Bool.and_true, Bool.and_eq_true, decide_eq_true_eq]
    refine or_congr_right ⟨fun h => ⟨h.2.1, h.1⟩, fun h => ⟨h.2, h.1, hnone⟩⟩

/-- Where a member cannot end, the scan goes on with the next token. -/
theorem spanMember_step {x : List Token} {i : Nat} (hi : i < x.length) (hstop : ¬ Stop x i) :
    spanMember (progress x i) (x.drop i) =
      (x[i] :: (spanMember (progress x (i + 1)) (x.drop (i + 1))).1,
        (spanMember (progress x (i + 1)) (x.drop (i + 1))).2) := by
  rw [stop_iff hi, not_or] at hstop
  have hstep : progress x (i + 1) = (progress x i).step x[i] (x.drop (i + 1)).head? := by
    rw [progress, List.getElem?_eq_getElem hi, Option.elim_some, List.head?_drop]
  rw [List.drop_eq_getElem_cons hi, spanMember, if_neg hstop.1, if_neg hstop.2, ← hstep]

/-- The scan comes to the first place where the member can end. -/
theorem spanMember_upTo {x : List Token} {k : Nat} (hk : k ≤ x.length)
    (hstop : ∀ j < k, ¬ Stop x j) :
    spanMember {} x = (x.take k ++ (spanMember (progress x k) (x.drop k)).1,
      (spanMember (progress x k) (x.drop k)).2) := by
  induction k with
  | zero => rfl
  | succ k ih =>
    rw [ih (by omega) fun j hj => hstop j (by omega),
      spanMember_step hk (hstop k (Nat.lt_succ_self k)), ← List.take_append_getElem hk,
      List.append_assoc]
    rfl

/-- The scan ends there, or behind a semicolon that follows a group in braces. -/
theorem FirstStop.spanMember {x : List Token} {i : Nat} (h : FirstStop x i) (hi : i < x.length) :
    Chunk.spanMember {} x =
      if x[i].isPunct ';' = true then (x.take (i + 1), x.drop (i + 1))
      else (x.take (i + 1) ++ (spanSemicolon (x.drop (i + 1))).1,
        (spanSemicolon (x.drop (i + 1))).2) := by
  rw [spanMember_upTo (Nat.le_of_lt hi) h.2, List.drop_eq_getElem_cons hi, Chunk.spanMember,
    ← List.take_append_getElem hi]
  split
  · rfl
  · rename_i hsemicolon
    rw [if_pos (((stop_iff hi).1 h.1).resolve_left hsemicolon), List.append_assoc]
    rfl

theorem spanSemicolon_of_head {tokens : List Token}
    (h : tokens.head?.any (Token.isPunct ';') = false) : spanSemicolon tokens = ([], tokens) := by
  cases tokens with
  | nil => rfl
  | cons t rest => exact if_neg (Bool.eq_false_iff.1 h)

/-- The scan of a member takes its tokens and no others. -/
theorem Terminated.spanMember {x : List Token} (h : Terminated x) {more : List Token}
    (hmore : x.getLast?.any (Token.isGroup .brace) = true →
      more.head?.any (Token.isPunct ';') = false) :
    Chunk.spanMember {} (x ++ more) = (x, more) := by
  obtain ⟨i, hfirst, hend⟩ := h
  have hi : i < x.length := by omega
  have hspan := (hfirst.append more hi).spanMember (by rw [List.length_append]; omega)
  rw [List.getElem_append_left hi] at hspan
  rw [hspan]
  rcases hend with hlength | ⟨hlength, hbrace, hsemicolon⟩
  · rw [← hlength, List.take_left, List.drop_left]
    split
    · rfl
    · rename_i hpunct
      have hbrace : x[i].isGroup .brace = true :=
        (Bool.and_eq_true_iff.1 (((stop_iff hi).1 hfirst.1).resolve_left hpunct)).2
      have hlast : x.getLast? = some x[i] := by
        rw [List.getLast?_eq_getElem?, hlength, Nat.add_sub_cancel, List.getElem?_eq_getElem hi]
      rw [spanSemicolon_of_head (hmore (by rw [hlast]; exact hbrace)), List.append_nil]
  · have hi' : i + 1 < x.length := by omega
    rw [List.getElem?_eq_getElem hi, Option.any_some] at hbrace
    rw [List.getElem?_eq_getElem hi', Option.any_some] at hsemicolon
    have hpunct : x[i].isPunct ';' = false := by
      obtain ⟨_, _, _, _, hgroup⟩ := Token.isGroup_iff.1 hbrace
      rw [hgroup]
      rfl
    have hdrop : (x ++ more).drop (i + 1) = x[i + 1] :: more := by
      rw [List.drop_append_of_le_length (Nat.le_of_lt hi'), List.drop_eq_getElem_cons hi', ← hlength,
        List.drop_length]
      rfl
    have htake : (x ++ more).take (i + 1) ++ [x[i + 1]] = x := by
      rw [List.take_append_of_le_length (Nat.le_of_lt hi'), List.take_append_getElem hi', ← hlength,
        List.take_length]
    rw [hpunct, if_neg Bool.false_ne_true, hdrop, spanSemicolon, if_pos hsemicolon, htake]

theorem Terminated.ne_nil {x : List Token} (h : Terminated x) : x ≠ [] := by
  obtain ⟨i, -, hend⟩ := h
  rintro rfl
  simp at hend

/-- Splitting undoes joining. -/
theorem splitMembers_flatten {xs : List (List Token)} (hxs : ∀ x ∈ xs, Terminated x)
    (hapart : xs.IsChain Apart) : splitMembers xs.flatten = xs := by
  induction xs with
  | nil => exact divides_members.nil
  | cons x xs ih =>
    obtain ⟨hx, hrest⟩ := List.forall_mem_cons.1 hxs
    have hmore : x.getLast?.any (Token.isGroup .brace) = true →
        xs.flatten.head?.any (Token.isPunct ';') = false := by
      intro hbrace
      cases xs with
      | nil => rfl
      | cons y ys =>
        rw [List.flatten_cons, List.head?_append_of_ne_nil _ (hrest y List.mem_cons_self).ne_nil]
        exact (List.isChain_cons_cons.1 hapart).1 hbrace
    have hne : (x :: xs).flatten ≠ [] := by
      rw [List.flatten_cons]
      exact List.append_ne_nil_of_left_ne_nil hx.ne_nil _
    rw [divides_members.cons hne, List.flatten_cons, hx.spanMember hmore, ih hrest hapart.of_cons]

end Chunk

/-! ## The group of a trait -/

namespace Take

variable {α β : Type}

/-- Whatever the reader gives satisfies the condition. -/
def Gives (result : α → Prop) (r : Take α) : Prop :=
  ∀ tokens a rest, r tokens = .ok (a, rest) → result a

theorem Gives.bind {result : β → Prop} {r : Take α} {f : α → Take β}
    (hf : ∀ a, Gives result (f a)) : Gives result (r >>= f) := by
  intro tokens b rest h
  obtain ⟨a, middle, -, hsecond⟩ := bind_eq_ok h
  exact hf a middle b rest hsecond

theorem Gives.pure {result : α → Prop} {a : α} (h : result a) :
    Gives result (Pure.pure a : Take α) := by
  intro tokens b rest hpure
  have hresult : Except.ok (a, tokens) = Except.ok (b, rest) := hpure
  cases hresult
  exact h

/-- The last token that the reader takes goes with what it gives. -/
def Ends (result : Token → α → Prop) (r : Take α) : Prop :=
  ∀ tokens a rest, r tokens = .ok (a, rest) → ∃ own last, tokens = own ++ last :: rest ∧
    result last a

theorem Ahead.bind_ends {result : Token → β → Prop} {r : Take α} {f : α → Take β} (hr : Ahead r)
    (hf : ∀ a, Ends result (f a)) : Ends result (r >>= f) := by
  intro tokens b rest h
  obtain ⟨a, middle, hfirst, hsecond⟩ := bind_eq_ok h
  obtain ⟨own, rfl, -⟩ := hr _ _ _ hfirst
  obtain ⟨more, last, rfl, hlast⟩ := hf a _ _ _ hsecond
  exact ⟨own ++ more, last, (List.append_assoc ..).symm, hlast⟩

theorem ends_token {result : Token → α → Prop} {p : Token → Bool} (expected : Text)
    (f : Token → α) (h : ∀ t, p t = true → result t (f t)) :
    Ends result (token p expected >>= fun t => pure (f t)) := by
  intro tokens a rest hr
  obtain ⟨t, middle, hfirst, hsecond⟩ := bind_eq_ok hr
  obtain ⟨rfl, ht⟩ := token_cases hfirst
  have hresult : Except.ok (f t, middle) = Except.ok (a, rest) := hsecond
  cases hresult
  exact ⟨[], t, rfl, h t ht⟩

end Take

namespace Shape

open Take

variable (s : Settings) (pointer : Text)

/-- Every kind but that of traits is the kind of what its reader gives. -/
theorem gives_kind {kind : Kind} (htrait : kind ≠ .trait) (halias : kind ≠ .traitAlias) :
    Gives (fun shape => shape.kind = kind) (take s pointer kind) := by
  cases kind with
  | constant =>
    exact .bind fun _ => .bind fun _ => .bind fun _ => .bind fun _ => .bind fun _ => .pure rfl
  | static =>
    exact .bind fun _ => .bind fun _ => .bind fun _ => .bind fun _ => .bind fun _ => .bind fun _ =>
      .pure rfl
  | function =>
    exact .bind fun _ => .bind fun _ => .bind fun _ => .bind fun _ => .bind fun _ => .bind fun _ =>
      .bind fun _ => .bind fun _ => .pure rfl
  | enumeration =>
    exact .bind fun _ => .bind fun _ => .bind fun _ => .bind fun _ => .bind fun _ => .pure rfl
  | record => exact .bind fun _ => .bind fun _ => .bind fun _ => .bind fun _ => .pure rfl
  | trait => exact absurd rfl htrait
  | traitAlias => exact absurd rfl halias
  | typeAlias =>
    exact .bind fun _ => .bind fun _ => .bind fun _ => .bind fun _ => .bind fun _ => .pure rfl
  | use => exact .bind fun _ => .bind fun _ => .bind fun _ => .pure rfl
  | externCrate =>
    exact .bind fun _ => .bind fun _ => .bind fun _ => .bind fun _ => .bind fun _ => .pure rfl
  | invocation =>
    refine .bind fun _ => .bind fun _ => .bind fun _ => .bind fun _ => ?_
    split
    · exact .bind fun _ => .pure rfl
    · exact .bind fun _ => .pure rfl

/-- The members of a trait are read from its last token. -/
theorem ends_trait : Ends (fun g shape => shape.kind = .trait →
    shape.roster = some (.plain (Members.traitMembers s pointer g))) (takeTrait s pointer) := by
  refine (ahead_qualifiers _).bind_ends fun _ => (ahead_word _).bind_ends fun _ =>
    (ahead_ident _).bind_ends fun _ => ahead_generics.bind_ends fun _ =>
      ahead_peek.bind_ends fun _ => ?_
  split
  · refine (ahead_upTo _).bind_ends fun _ => (ahead_whereClause _).bind_ends fun _ =>
      ends_token _ _ fun _ _ halias => ?_
    cases halias
  · exact (ahead_upTo _).bind_ends fun _ => (ahead_whereClause _).bind_ends fun _ =>
      ends_token _ _ fun _ _ _ => rfl

theorem ends_of_trait {s : Settings} {pointer : Text} {kind : Kind} {tokens rest : List Token}
    {shape : Shape} (h : take s pointer kind tokens = .ok (shape, rest))
    (hkind : shape.kind = .trait) : ∃ own g, tokens = own ++ g :: rest ∧
      shape.roster = some (.plain (Members.traitMembers s pointer g)) := by
  have htrait : takeTrait s pointer tokens = .ok (shape, rest) := by
    by_cases ht : kind = .trait
    · rw [ht] at h
      exact h
    by_cases ha : kind = .traitAlias
    · rw [ha] at h
      exact h
    · exact absurd ((gives_kind s pointer ht ha _ _ _ h).symm.trans hkind) ht
  obtain ⟨own, g, htokens, hroster⟩ := ends_trait s pointer _ _ _ htrait
  exact ⟨own, g, htokens, hroster hkind⟩

end Shape

/-! ## The points of a trait -/

/-- The attachment point of a member of a trait, with the annotations at the head of its tokens. -/
def Members.traitPoint (s : Settings) (pointer : Text) (x : List Token) : Point :=
  ⟨.member, memberName (Attachment.scan s pointer x).2, pointer, (Attachment.scan s pointer x).1⟩

theorem Members.map_point_traitMembers (s : Settings) (pointer : Text) (g : Token) :
    (traitMembers s pointer g).members.map Member.point =
      (Chunk.splitMembers g.children).mapIdx fun index x =>
        traitPoint s (Pointer.entry pointer "members" index) x := by
  refine List.ext_getElem? fun index => ?_
  simp only [traitMembers, ofChunks, List.getElem?_map, List.getElem?_mapIdx, Option.map_map]
  rfl

namespace Item

/-- The members of a trait are read from the last token of the trait. -/
theorem points_of_trait {s : Settings} {pointer : Text} {tokens rest : List Token}
    {d : Declaration} (h : parse s pointer tokens = (.declared d, rest))
    (hkind : d.shape.kind = .trait) : ∃ own g, tokens = own ++ g :: rest ∧
      (declared d).points = d.point :: (Members.traitMembers s pointer g).members.map
        Member.point := by
  rcases parse_cases s pointer tokens with ⟨-, d', -, hparse⟩ |
    ⟨kind, shape, rest', -, htake, hparse⟩
  · rw [hparse] at h
    cases h
  · rw [hparse] at h
    cases h
    obtain ⟨own, g, hbody, hroster⟩ := Shape.ends_of_trait htake hkind
    have hvisibility := spanVisibility_append (Attachment.scan s pointer tokens).2
    have hscan := Attachment.scan_tokens s pointer tokens
    rw [← hvisibility, hbody, ← List.append_assoc, ← List.append_assoc] at hscan
    exact ⟨_, g, hscan.symm, by rw [points_declared, Shape.points, hroster]; rfl⟩

/-- Members of a trait that were written one behind the other are split where they were joined. The
trait has its own attachment point and one for each of them, with the annotations at its head. -/
theorem trait_points {xs : List (List Token)} (hxs : ∀ x ∈ xs, Chunk.Terminated x)
    (hapart : xs.IsChain Chunk.Apart) :
    Chunk.splitMembers xs.flatten = xs ∧
    ∀ (s : Settings) (pointer : Text) (tokens rest front : List Token) (leading : Text)
      (pos : Position) (closeLeading : Text) (d : Declaration),
      tokens = front ++ .group leading pos .brace xs.flatten closeLeading :: rest →
      parse s pointer tokens = (.declared d, rest) → d.shape.kind = .trait →
      (declared d).points = d.point :: xs.mapIdx fun index x =>
        Members.traitPoint s (Pointer.entry pointer "members" index) x := by
  have hsplit := Chunk.splitMembers_flatten hxs hapart
  refine ⟨hsplit, ?_⟩
  intro s pointer tokens rest front leading pos closeLeading d htokens hparse hkind
  obtain ⟨own, g, htokens', hpoints⟩ := points_of_trait hparse hkind
  have hgroup : g = .group leading pos .brace xs.flatten closeLeading :=
    (List.cons.inj (List.append_inj' (htokens'.symm.trans htokens) rfl).2).1
  have hchildren : g.children = xs.flatten := by
    rw [hgroup]
    rfl
  rw [hpoints, Members.map_point_traitMembers, hchildren, hsplit]

theorem declared_of_head {i : Item} {kind : Kind}
    (h : i.points.head?.any (fun p => p.site = .declaration kind) = true) :
    ∃ d, i = .declared d ∧ d.shape.kind = kind := by
  cases i with
  | declared d =>
    have hsite : Site.declaration d.shape.kind = .declaration kind := of_decide_eq_true h
    exact ⟨d, rfl, Site.declaration.inj hsite⟩
  | enclosing => cases h
  | unsupported => cases h

/-- A method whose result has braces inside angle brackets, one with a body and a semicolon, a
constant with braces and angle brackets in its value, an invocation with braces, and a type. -/
def fiveMembers : List (List Token) :=
  [tokensOf "#[a] fn f() -> B<\x7b1\x7d>;", tokensOf "#[b] #[c] fn g() \x7b\x7d ;",
    tokensOf "const C: u8 = \x7b1\x7d < 2;", tokensOf "m! \x7b\x7d", tokensOf "#[d] type T;"]

/-- The tokens of a trait with these members. -/
def fiveMemberTrait : List Token :=
  tokensOf "trait T<A> where A: B<\x7b2\x7d>" ++ [.group [] .nowhere .brace fiveMembers.flatten []]

/-- Five points behind that of the trait, with one, two, no, no and one annotations. -/
theorem trait_points_five :
    ∃ d, parse {} [] fiveMemberTrait = (.declared d, []) ∧
      Chunk.splitMembers fiveMembers.flatten = fiveMembers ∧
      (declared d).points.tail.map (fun p => p.attachments.length) = [1, 2, 0, 0, 1] := by
  have hmembers : ∀ x ∈ fiveMembers, Chunk.Terminated x := by
    simp only [fiveMembers, List.forall_mem_cons, List.not_mem_nil, false_implies, implies_true,
      and_true]
    exact ⟨⟨11, by decide +kernel⟩, ⟨7, by decide +kernel⟩, ⟨8, by decide +kernel⟩,
      ⟨2, by decide +kernel⟩, ⟨4, by decide +kernel⟩⟩
  obtain ⟨hsplit, hpoints⟩ := trait_points hmembers (by decide +kernel)
  obtain ⟨d, hd, hkind⟩ := @declared_of_head (parse {} [] fiveMemberTrait).1 .trait
    (by decide +kernel)
  have hrest : (parse {} [] fiveMemberTrait).2 = [] := List.isEmpty_iff.1 (by decide +kernel)
  have hparse : parse {} [] fiveMemberTrait = (.declared d, []) := Prod.ext hd hrest
  refine ⟨d, hparse, hsplit, ?_⟩
  rw [hpoints {} [] fiveMemberTrait [] _ _ _ _ d rfl hparse hkind, List.tail_cons]
  decide +kernel

end Item

end CondAttrs
