import CondAttrs.Proofs.Lexical.Fault
import CondAttrs.Proofs.Lowering.Deferral
import CondAttrs.Proofs.Report

/-!
# How the expansion of a single item ends

A single item is expanded as a whole or not at all. What goes wrong is found at several stages: the
arguments of the invocation are no tokens or do not fit, the item is no token tree, its kind is not
known, its tokens do not fit the kind, or tokens are left behind a complete declaration. By then
annotations may have been read and some of them refused. Nothing of this work shows in the output:
it is a single error, or the item as it was given, or the declaration with every annotation list
lowered.

## Main definitions

* `ArgumentsRefused`, `HeadOf`: the two ends of reading the arguments of an invocation.
* `Ending`, `Ending.Occurs`: the three ends, each with the input that leads to it and the result.

## Main statements

* `Item.splice_map_points`: an item filled with one text for every point.
* `Item.parseWhole_cases`: what a token list is as a whole.
* `expandItem_ending`: exactly one of the three ends occurs.
-/

namespace CondAttrs

/-! ## Arguments -/

/-- The arguments of an invocation are refused: they are no token trees, or there are some and a
directive cannot have them. -/
def ArgumentsRefused (s : Settings) (arguments : Text) : Prop :=
  (∃ d, tokenize arguments = .error d) ∨
    ∃ stream d, tokenize arguments = .ok stream ∧ stream.tokens ≠ [] ∧
      Body.parse s argumentsPointer .nowhere stream.tokens = .error d

/-- The text is the native form of the arguments of an invocation, on a line of its own, and empty
if there are none. -/
def HeadOf (s : Settings) (arguments head : Text) : Prop :=
  ∃ stream, tokenize arguments = .ok stream ∧
    (stream.tokens = [] ∧ head = [] ∨
      ∃ body, Body.parse s argumentsPointer .nowhere stream.tokens = .ok body ∧
        head = body.native s false ++ "\n")

theorem Body.isError_of_parse {s : Settings} {pointer : Text} {anchor : Position}
    {tokens : List Token} {d : Diagnostic} (h : Body.parse s pointer anchor tokens = .error d) :
    d.isError = true := by
  have hwithin : d.Within [.group [] anchor .paren tokens []] :=
    Body.within_of_parse (fun _ f _ _ hentry =>
      Attribute.within_of_ofEntry Attribute.within_of_ofForm hentry) h
  exact hwithin.1

theorem HeadOf.not_refused {s : Settings} {arguments head : Text} (h : HeadOf s arguments head) :
    ¬ ArgumentsRefused s arguments := by
  obtain ⟨stream, htokenize, hhead⟩ := h
  rintro (⟨d, herror⟩ | ⟨stream', d, htokenize', hne, herror⟩)
  · rw [htokenize] at herror
    cases herror
  · rw [htokenize] at htokenize'
    cases htokenize'
    rcases hhead with ⟨hnil, -⟩ | ⟨body, hparse, -⟩
    · exact hne hnil
    · rw [hparse] at herror
      cases herror

/-- Reading the arguments of an invocation gives their native form or an error. -/
theorem invocationHead_cases (s : Settings) (arguments : Text) :
    (∃ head, invocationHead s arguments = .ok head ∧ HeadOf s arguments head) ∨
      ∃ d, invocationHead s arguments = .error d ∧ d.isError = true ∧
        ArgumentsRefused s arguments := by
  cases htokenize : tokenize arguments with
  | error d =>
    refine .inr ⟨d, ?_, isError_of_tokenize htokenize, .inl ⟨d, htokenize⟩⟩
    rw [invocationHead, htokenize]
    rfl
  | ok stream =>
    cases htokens : stream.tokens with
    | nil =>
      refine .inl ⟨[], ?_, stream, htokenize, .inl ⟨htokens, rfl⟩⟩
      simp only [invocationHead, htokenize, bind, Except.bind, htokens]
      rfl
    | cons first rest =>
      cases hparse : Body.parse s argumentsPointer .nowhere stream.tokens with
      | ok body =>
        exact .inl ⟨_, invocationHead_of_parse htokenize hparse, stream, htokenize,
          .inr ⟨body, hparse, rfl⟩⟩
      | error d =>
        have hrefused : ArgumentsRefused s arguments :=
          .inr ⟨stream, d, htokenize, by rw [htokens]; exact List.cons_ne_nil _ _, hparse⟩
        rw [htokens] at hparse
        by_cases hlacks : d.fault.lacksCondition = true
        · refine .inr ⟨⟨.argumentUnexpected s.directive
            (Text.strip (Token.renderAll stream.tokens)), argumentsPointer, first.pos⟩, ?_, rfl,
            hrefused⟩
          simp only [invocationHead, htokenize, bind, Except.bind, htokens, hparse, hlacks]
          rfl
        · refine .inr ⟨d, ?_, Body.isError_of_parse hparse, hrefused⟩
          simp only [invocationHead, htokenize, bind, Except.bind, htokens, hparse, hlacks]
          rfl

/-! ## Items -/

namespace Item

/-- An item filled with a text for every point is made of its fixed texts and these. -/
theorem splice_map_points (g : Attachment → Text) (i : Item) :
    i.splice (i.points.map fun point => point.attachments.flatMap g) =
      .ok (i.pieces.flatMap (Piece.fill g)) := by
  rw [splice, points]
  induction i.pieces with
  | nil => rfl
  | cons piece pieces ih =>
    cases piece with
    | fixed text =>
      rw [List.filterMap_cons_none rfl, Piece.splice, ih]
      rfl
    | slot point =>
      have hpoints : (Piece.slot point :: pieces).filterMap Piece.point? =
          point :: pieces.filterMap Piece.point? := rfl
      rw [hpoints, List.map_cons, Piece.splice, ih]
      rfl

/-- A token list is one declaration as a whole, or it is passed through with a warning. -/
theorem parseWhole_cases (s : Settings) (pointer : Text) (tokens : List Token) :
    (∃ d, parse s pointer tokens = (.declared d, []) ∧
      parseWhole s pointer tokens = .declared d) ∨
    ((∀ d, parse s pointer tokens ≠ (.declared d, [])) ∧
      ∃ d, d.isError = false ∧ parseWhole s pointer tokens = .unsupported tokens d) := by
  rcases parse_cases s pointer tokens with ⟨-, d, hd, hparse⟩ | ⟨kind, shape, rest, -, -, hparse⟩
  · refine .inr ⟨fun d' hdeclared => ?_, d, hd, ?_⟩
    · rw [hparse] at hdeclared
      cases hdeclared
    · rw [parseWhole, hparse, passThrough]
  · cases rest with
    | nil => exact .inl ⟨_, hparse, by rw [parseWhole, hparse]⟩
    | cons next rest =>
      refine .inr ⟨fun d' hdeclared => ?_, _, ?_, by rw [parseWhole, hparse]⟩
      · rw [hparse] at hdeclared
        cases hdeclared
      · rfl

/-- Filled with its own annotations, an item that was read is the text it was read from. -/
theorem splice_source {s : Settings} {pointer : Text} {tokens own rest : List Token} {i : Item}
    (h : parse s pointer tokens = (i, rest)) (hown : own ++ rest = tokens) :
    i.splice (i.points.map fun point =>
        point.attachments.flatMap fun a => Token.renderAll a.tokens) =
      .ok (Token.renderAll own) := by
  have htokens := parse_tokens s pointer tokens
  rw [h, ← congrArg Token.forgetAll hown, Token.forgetAll_append, Token.forgetAll_append] at htokens
  rw [splice_map_points, ← render_fill (f := Attachment.tokens) fun _ => rfl]
  exact congrArg Except.ok (Token.renderAll_of_forgetAll (List.append_cancel_right htokens))

theorem isError_of_annotationFaults {s : Settings} {pointer : Text} {tokens rest : List Token}
    {i : Item} {d : Diagnostic} (h : parse s pointer tokens = (i, rest))
    (hd : d ∈ i.annotationFaults) : d.isError = true := by
  have hi : (parse s pointer tokens).1 = i := congrArg Prod.fst h
  rw [annotationFaults_eq, ← hi] at hd
  obtain ⟨a, ha, hfault⟩ := List.mem_filterMap.1 hd
  exact ((parse_scanned ha).within hfault).1

end Item

/-! ## Endings -/

/-- How the expansion of a single item can end. -/
inductive Ending where
  /-- With an error and nothing else. -/
  | refused
  /-- With the item as it was given. -/
  | passed
  /-- With a declaration whose annotations are lowered. -/
  | lowered

/-- The item and the arguments lead to the ending, and the expansion is what it should be then. -/
def Ending.Occurs (s : Settings) (item arguments : Text) (e : Expansion) : Ending → Prop
  | refused =>
    (ArgumentsRefused s arguments ∨ ∃ d, tokenize item = .error d) ∧
      ∃ d, d.severity = .error ∧ e.text = Embed.itemText s d.fault.message ∧ e.diagnostics = [d]
  | passed => ∃ head stream, HeadOf s arguments head ∧ tokenize item = .ok stream ∧
      (∀ d, Item.parse s itemPointer stream.tokens ≠ (.declared d, [])) ∧
      e.text = head ++ item ∧
      ∃ d, d.severity = .warning ∧ e.diagnostics = if s.warnUnsupported then [d] else []
  | lowered => ∃ head stream d text, HeadOf s arguments head ∧ tokenize item = .ok stream ∧
      Item.parse s itemPointer stream.tokens = (.declared d, []) ∧
      (Item.declared d).splice ((Item.declared d).points.map fun point =>
        point.attachments.flatMap fun a => Token.renderAll a.tokens) =
          .ok (Token.renderAll stream.tokens) ∧
      (Item.declared d).splice ((Item.declared d).points.map fun point =>
        Attachment.lowerAll s point.attachments) = .ok text ∧
      e.text = head ++ text ++ stream.trailing ∧
      e.diagnostics = (Item.declared d).points.flatMap (fun point =>
        point.attachments.filterMap Attachment.fault?) ∧
      ∀ x ∈ e.diagnostics, x.severity = .error

section Ending

variable {s : Settings} {item arguments : Text}

theorem refused_of_expandParts {d : Diagnostic} (h : expandParts s item arguments = .error d)
    (hd : d.isError = true)
    (hrefused : ArgumentsRefused s arguments ∨ ∃ d, tokenize item = .error d) :
    Ending.refused.Occurs s item arguments (expandItem s item arguments) := by
  refine ⟨hrefused, d, of_decide_eq_true hd, ?_, ?_⟩ <;> rw [expandItem, h]

/-- Behind accepted arguments, an item is passed on or lowered. -/
theorem occurs_of_head {head : Text} {stream : TokenStream}
    (hhead : invocationHead s arguments = .ok head) (hheadOf : HeadOf s arguments head)
    (htokenize : tokenize item = .ok stream) :
    ∃ ending, Ending.Occurs s item arguments (expandItem s item arguments) ending := by
  have hexpand : expandItem s item arguments =
      ⟨head ++ (Item.parseWhole s itemPointer stream.tokens).lower s ++ stream.trailing,
        (Item.parseWhole s itemPointer stream.tokens).report s.warnUnsupported⟩ := by
    rw [expandItem, expandParts, hhead, htokenize]
    rfl
  rw [hexpand]
  rcases Item.parseWhole_cases s itemPointer stream.tokens with ⟨d, hparse, hwhole⟩ |
    ⟨hnone, d, hd, hwhole⟩
  · refine ⟨.lowered, head, stream, d, (Item.declared d).lower s, hheadOf, htokenize, hparse,
      Item.splice_source hparse (List.append_nil _), ?_, ?_, ?_, ?_⟩
    · rw [Item.lower_eq_fill]
      exact Item.splice_map_points (Attachment.lower s) (.declared d)
    · rw [hwhole]
    · rw [hwhole]
      rfl
    · rw [hwhole]
      exact fun x hx => of_decide_eq_true (Item.isError_of_annotationFaults hparse hx)
  · refine ⟨.passed, head, stream, hheadOf, htokenize, hnone, ?_, d, ?_, ?_⟩
    · have hrender : Token.renderAll stream.tokens ++ stream.trailing = item :=
        render_of_tokenize htokenize
      rw [hwhole, List.append_assoc, ← hrender]
      simp [Item.lower, Item.pieces, Piece.lower, Piece.ofTokens]
    · exact Diagnostic.isError_eq_false_iff.1 hd
    · rw [hwhole]
      rfl

/-- Behind accepted arguments and for an item that is a token tree there is no refusal. -/
theorem not_refused_of_head {e : Expansion} {head : Text} {stream : TokenStream}
    (hhead : HeadOf s arguments head) (htokenize : tokenize item = .ok stream) :
    ¬ Ending.refused.Occurs s item arguments e := by
  rintro ⟨hrefused | ⟨d, herror⟩, -⟩
  · exact hhead.not_refused hrefused
  · rw [htokenize] at herror
    cases herror

/-- An item that is passed on is not lowered. -/
theorem not_lowered_of_passed {e : Expansion} (h : Ending.passed.Occurs s item arguments e) :
    ¬ Ending.lowered.Occurs s item arguments e := by
  obtain ⟨-, stream, -, htokenize, hnone, -⟩ := h
  rintro ⟨-, stream', d, -, -, htokenize', hparse, -⟩
  rw [htokenize] at htokenize'
  cases htokenize'
  exact hnone d hparse

/-- The input that leads to one ending leads to no other. -/
theorem Ending.Occurs.unique {e : Expansion} {ending ending' : Ending}
    (h : ending.Occurs s item arguments e) (h' : ending'.Occurs s item arguments e) :
    ending = ending' := by
  have hpassed : passed.Occurs s item arguments e → ¬ refused.Occurs s item arguments e := by
    rintro ⟨head, stream, hhead, htokenize, -⟩
    exact not_refused_of_head hhead htokenize
  have hlowered : lowered.Occurs s item arguments e → ¬ refused.Occurs s item arguments e := by
    rintro ⟨head, stream, -, -, hhead, htokenize, -⟩
    exact not_refused_of_head hhead htokenize
  cases ending with
  | refused =>
    cases ending' with
    | refused => rfl
    | passed => exact absurd h (hpassed h')
    | lowered => exact absurd h (hlowered h')
  | passed =>
    cases ending' with
    | refused => exact absurd h' (hpassed h)
    | passed => rfl
    | lowered => exact absurd h' (not_lowered_of_passed h)
  | lowered =>
    cases ending' with
    | refused => exact absurd h' (hlowered h)
    | passed => exact absurd h (not_lowered_of_passed h')
    | lowered => rfl

end Ending

/-- The expansion of a single item ends in exactly one of three ways: with one error in the place of
everything, with the item as it was given and one warning at most, or with the declaration that
the item is, all of its annotations lowered and their faults reported. -/
theorem expandItem_ending (s : Settings) (item arguments : Text) :
    ∃! ending, Ending.Occurs s item arguments (expandItem s item arguments) ending := by
  refine existsUnique_of_exists_of_unique ?_ fun ending ending' h h' => h.unique h'
  rcases invocationHead_cases s arguments with ⟨head, hhead, hheadOf⟩ | ⟨d, hhead, hd, hrefused⟩
  · cases htokenize : tokenize item with
    | error d =>
      refine ⟨.refused, refused_of_expandParts ?_ (isError_of_tokenize htokenize)
        (.inr ⟨d, htokenize⟩)⟩
      rw [expandParts, hhead, htokenize]
      rfl
    | ok stream => exact occurs_of_head hhead hheadOf htokenize
  · refine ⟨.refused, refused_of_expandParts ?_ hd (.inl hrefused)⟩
    rw [expandParts, hhead]
    rfl

end CondAttrs
