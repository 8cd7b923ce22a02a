import CondAttrs.Proofs.Address
import CondAttrs.Proofs.Ending
import CondAttrs.Proofs.Reading.FirstFault

/-!
# The arguments of an invocation

Arguments that are handed over with a single item are read like those of a directive. If they are
refused, the expansion is one diagnostic, and it says one of two things: that there is no condition
with a comma behind it, or what is wrong with the first nested annotation at fault, with a pointer
that leads there.

The two are told apart by the kind of the fault alone and not by its depth. So a nested directive
without a condition or a comma is taken for arguments without them, and the annotation that is at
fault is not named.

## Main definitions

* `Fault.isDirective`: the faults of a directive.
* `Body.Undivided`: there is no condition with a comma behind it.

## Main statements

* `invocationHead_of_refused`: with which diagnostic arguments are refused.
* `Fault.code_eq_unexpected_iff`: the fault that an identifier belongs to.
* `expandItem_blames_arguments`: what is reported about arguments, and when.
-/

namespace CondAttrs

/-! ## Kinds of faults -/

namespace Fault

/-- Whether the fault is one of a directive. -/
def isDirective : Fault → Bool
  | argumentsMalformed _ _ => true
  | separatorMissing _ => true
  | conditionMissing => true
  | annotationExpected _ => true
  | annotationInner _ => true
  | _ => false

theorem code_of_isDirective {f : Fault} (h : f.isDirective = true) : "E_DIRECTIVE_" <+: f.code := by
  cases f <;> first | (exact List.isPrefixOf_iff_prefix.1 rfl) | cases h

/-- Arguments of an invocation are the only thing that is reported as unexpected. -/
theorem code_eq_unexpected_iff {f : Fault} :
    f.code = "E_INVOCATION_ARGUMENT_UNEXPECTED" ↔
      ∃ directive found, f = .argumentUnexpected directive found := by
  constructor
  · intro h
    cases f with
    | argumentUnexpected directive found => exact ⟨directive, found, rfl⟩
    | _ => exact absurd (String.toList_inj.1 h) (by simp)
  · rintro ⟨directive, found, rfl⟩
    rfl

end Fault

theorem Body.Faulty.lacksCondition {anchor pos : Position} {tokens : List Token} {fault : Fault}
    (h : Body.Faulty anchor tokens fault pos) : fault.lacksCondition = true := by
  cases h <;> rfl

theorem Body.Faulty.isDirective {anchor pos : Position} {tokens : List Token} {fault : Fault}
    (h : Body.Faulty anchor tokens fault pos) : fault.isDirective = true := by
  cases h <;> rfl

theorem Form.Faulty.isDirective {s : Settings} {f : Form} {fault : Fault} {pos : Position}
    (h : f.Faulty s fault pos) : fault.isDirective = true := by
  cases h with
  | pathless => rfl
  | inner => rfl
  | malformed => rfl
  | arguments _ _ _ hbody => exact hbody.isDirective

theorem Form.FaultAt.isDirective {s : Settings} {nested : Bool} {f : Form} {path : List Nat}
    {fault : Fault} {pos : Position} (h : f.FaultAt s nested path fault pos) :
    fault.isDirective = true := by
  induction h with
  | inside _ _ _ _ _ _ _ ih => exact ih
  | _ => rfl

/-! ## Arguments that are refused -/

/-- There is no condition with a comma behind it: no comma outside groups, or nothing in front of
the first one. -/
def Body.Undivided (tokens : List Token) : Prop :=
  Body.NoComma tokens ∨ ∃ comma rest, tokens = comma :: rest ∧ comma.isPunct ',' = true

theorem Body.undivided_iff {tokens : List Token} :
    Undivided tokens ↔ ((splitCondition tokens).all fun x => x.1.isEmpty) = true := by
  cases hsplit : splitCondition tokens with
  | none => simpa [Undivided] using .inl (splitCondition_eq_none_iff.1 hsplit)
  | some x =>
    obtain ⟨condition, comma, rest⟩ := x
    rw [Option.all_some, List.isEmpty_iff]
    constructor
    · rintro (hnone | ⟨comma', rest', rfl, hcomma'⟩)
      · rw [splitCondition_eq_none_iff.2 hnone] at hsplit
        cases hsplit
      · rw [splitCondition, if_pos hcomma'] at hsplit
        cases hsplit
        rfl
    · rintro rfl
      obtain ⟨rfl, -, hcomma⟩ := splitCondition_eq_some_iff.1 hsplit
      exact .inr ⟨comma, rest, rfl, hcomma⟩

theorem Body.Faulty.undivided {anchor pos : Position} {tokens : List Token} {fault : Fault}
    (h : Body.Faulty anchor tokens fault pos) : Undivided tokens := by
  cases h with
  | noSeparator hnone => exact .inl hnone
  | noCondition hcomma => exact .inr ⟨_, _, rfl, hcomma⟩

theorem Body.Undivided.exists_faulty {tokens : List Token} (h : Undivided tokens)
    (anchor : Position) : ∃ fault pos, Body.Faulty anchor tokens fault pos := by
  rcases h with hnone | ⟨comma, rest, rfl, hcomma⟩
  · exact ⟨_, _, .noSeparator hnone⟩
  · exact ⟨_, _, .noCondition hcomma⟩

theorem Body.FirstFault.isDirective {s : Settings} {pointer : Text} {anchor : Position}
    {tokens : List Token} {d : Diagnostic} (h : FirstFault s pointer anchor tokens d) :
    d.fault.isDirective = true := by
  rcases h with ⟨hfaulty, -⟩ | ⟨_, _, -, hfaulty, -⟩
  · exact hfaulty.isDirective
  · exact hfaulty.isDirective

section Refused

variable {s : Settings} {item arguments : Text} {stream : TokenStream} {first : Token}
  {rest : List Token} {d : Diagnostic}

/-- The diagnostic about the arguments as a whole. -/
def unexpectedArguments (s : Settings) (tokens : List Token) (pos : Position) : Diagnostic :=
  ⟨.argumentUnexpected s.directive (Text.strip (Token.renderAll tokens)), argumentsPointer, pos⟩

/-- The reader of directives refuses the arguments for a fault. It is passed on, unless a condition
or a comma is lacking anywhere. -/
theorem invocationHead_of_refused (htokenize : tokenize arguments = .ok stream)
    (htokens : stream.tokens = first :: rest)
    (hfault : Body.FirstFault s argumentsPointer .nowhere stream.tokens d) :
    invocationHead s arguments =
      .error (if d.fault.lacksCondition then unexpectedArguments s stream.tokens first.pos
        else d) := by
  have hparse := Body.parse_eq_error_iff.2 hfault
  rw [htokens] at hparse
  by_cases hlacks : d.fault.lacksCondition = true
  · simp only [invocationHead, htokenize, bind, Except.bind, htokens, hparse, hlacks]
    rfl
  · simp only [invocationHead, htokenize, bind, Except.bind, htokens, hparse, hlacks]
    rfl

theorem diagnostics_of_refused (htokenize : tokenize arguments = .ok stream)
    (htokens : stream.tokens = first :: rest)
    (hfault : Body.FirstFault s argumentsPointer .nowhere stream.tokens d) :
    (expandItem s item arguments).diagnostics =
      [if d.fault.lacksCondition then unexpectedArguments s stream.tokens first.pos else d] := by
  rw [expandItem, expandParts, invocationHead_of_refused htokenize htokens hfault]
  rfl

/-- The pointer of a nested annotation starts with the place of the arguments. -/
theorem Diagnostic.FirstAmong.pointer_prefix {tokens : List Token}
    (h : d.FirstAmong s argumentsPointer (Body.EntryAt s tokens)) :
    "/args/annotations/" <+: d.pointer := by
  obtain ⟨path, f, hentry, -, hpointer, -⟩ := h
  cases path with
  | nil => cases hentry
  | cons index more =>
    have hhead : ("/args/annotations/" : Text) =
        Pointer.ofSegments ["args", "annotations"] ++ ['/'] := by decide
    rw [hpointer, hhead]
    exact ⟨Pointer.encodeSegment (Text.decimal index) ++ Pointer.ofSteps (nestedSteps more),
      by simp [argumentsPointer, nestedSteps, Pointer.ofSteps, Pointer.ofSegments]⟩

end Refused

/-! ## Arguments that are accepted -/

section Accepted

variable {s : Settings} {d : Diagnostic}

theorem Attachment.Scanned.isDirective {a : Attachment} (h : a.Scanned s) (hd : a.fault? = some d) :
    d.fault.isDirective = true := by
  obtain ⟨pointer, f, -, rfl⟩ := h
  rw [ofForm] at hd
  split at hd
  · cases hd
  · rename_i herror
    cases hd
    obtain ⟨path, hfault, -⟩ := Attribute.blames_of_ofForm false herror
    exact hfault.isDirective

/-- What is reported about an item are faults of its directives, or it is a warning. -/
theorem Item.kind_of_mem_report {pointer : Text} {tokens : List Token} {warn : Bool}
    (hd : d ∈ (parseWhole s pointer tokens).report warn) :
    d.fault.isDirective = true ∨ d.isError = false := by
  rcases parseWhole_cases s pointer tokens with ⟨declaration, hparse, hwhole⟩ |
    ⟨-, reason, hreason, hwhole⟩
  · left
    rw [hwhole, report_eq rfl] at hd
    obtain ⟨a, ha, hfault⟩ := List.mem_filterMap.1 hd
    have hscanned : a ∈ (parse s pointer tokens).1.attachments := by rwa [hparse]
    exact (parse_scanned hscanned).isDirective hfault
  · right
    rw [hwhole, report] at hd
    split at hd
    · rw [List.mem_singleton.1 hd]
      exact hreason
    · cases hd

/-- Behind accepted arguments nothing is reported about arguments. -/
theorem code_ne_of_head {item arguments head : Text} (hhead : invocationHead s arguments = .ok head)
    (hd : d ∈ (expandItem s item arguments).diagnostics) :
    d.fault.code ≠ "E_INVOCATION_ARGUMENT_UNEXPECTED" := by
  rw [Ne, Fault.code_eq_unexpected_iff]
  rintro ⟨directive, found, hfault⟩
  cases htokenize : tokenize item with
  | error d' =>
    rw [expandItem, expandParts, hhead, htokenize] at hd
    have hlexical := isLexical_of_tokenize htokenize
    rw [← List.mem_singleton.1 hd, hfault] at hlexical
    cases hlexical
  | ok stream =>
    rw [expandItem, expandParts, hhead, htokenize] at hd
    rcases Item.kind_of_mem_report hd with hkind | hkind
    · rw [hfault] at hkind
      cases hkind
    · rw [Diagnostic.isError, Diagnostic.severity, hfault] at hkind
      cases hkind

end Accepted

/-! ## What is reported -/

/-- If some nested annotation is at fault, there is a first one, and the arguments are refused for
it. -/
theorem Body.exists_firstAmong {s : Settings} {pointer : Text} {tokens : List Token}
    {path : List Nat} {f : Form} {fault : Fault} {pos : Position} (hentry : EntryAt s tokens path f)
    (hfaulty : f.Faulty s fault pos) :
    ∃ d : Diagnostic, d.FirstAmong s pointer (EntryAt s tokens) := by
  obtain ⟨hdivided, hne, hget, hmore⟩ := hentry
  cases hparse : Body.parse s pointer .nowhere tokens with
  | ok body =>
    obtain ⟨hdivided', hne', hall⟩ := parse_eq_ok_iff_fits.1 hparse
    rw [(hdivided.unique hdivided').2] at hget
    obtain ⟨a, hfits⟩ := hall.exists_fits (List.mem_of_getElem? hget)
    exact absurd hfaulty (hfits.not_faulty hmore)
  | error d =>
    rcases parse_eq_error_iff.1 hparse with ⟨hfaulty', -⟩ | hfirst
    · exact absurd hfaulty' (hdivided.not_faulty hne)
    · exact ⟨d, hfirst⟩

/-- If there are arguments, they are reported as unexpected if and only if they are not divided by a
comma into a condition and a list, or the first nested annotation at fault is a directive of that
kind. If any nested annotation is at fault, at whatever depth, there is one diagnostic: that of the
first one at fault, with its own identifier and a pointer that leads to it from the arguments, or,
where that is a directive without condition or comma, the one about the arguments as a whole. -/
theorem expandItem_blames_arguments {s : Settings} {item arguments : Text} {stream : TokenStream}
    {first : Token} {rest : List Token} (htokenize : tokenize arguments = .ok stream)
    (htokens : stream.tokens = first :: rest) :
    ((∃ d ∈ (expandItem s item arguments).diagnostics,
        d.fault.code = "E_INVOCATION_ARGUMENT_UNEXPECTED") ↔
      Body.Undivided stream.tokens ∨
        ∃ d : Diagnostic, d.FirstAmong s argumentsPointer (Body.EntryAt s stream.tokens) ∧
          d.fault.lacksCondition = true) ∧
    ∀ path f fault pos, Body.EntryAt s stream.tokens path f → f.Faulty s fault pos →
      ∃ d : Diagnostic, d.FirstAmong s argumentsPointer (Body.EntryAt s stream.tokens) ∧
        (d.fault.lacksCondition = false →
          (expandItem s item arguments).diagnostics = [d] ∧ "E_DIRECTIVE_" <+: d.fault.code ∧
            "/args/annotations/" <+: d.pointer) ∧
        (d.fault.lacksCondition = true →
          (expandItem s item arguments).diagnostics =
            [unexpectedArguments s stream.tokens first.pos]) := by
  refine ⟨⟨?_, ?_⟩, ?_⟩
  · rintro ⟨d, hd, hcode⟩
    cases hparse : Body.parse s argumentsPointer .nowhere stream.tokens with
    | ok body => exact absurd hcode (code_ne_of_head (invocationHead_of_parse htokenize hparse) hd)
    | error d' =>
      have hfault := Body.parse_eq_error_iff.1 hparse
      rw [diagnostics_of_refused htokenize htokens hfault, List.mem_singleton] at hd
      by_cases hlacks : d'.fault.lacksCondition = true
      · rcases hfault with ⟨hfaulty, -⟩ | hfirst
        · exact .inl hfaulty.undivided
        · exact .inr ⟨d', hfirst, hlacks⟩
      · obtain ⟨directive, found, heq⟩ := Fault.code_eq_unexpected_iff.1 hcode
        rw [hd, if_neg hlacks] at heq
        have hkind := hfault.isDirective
        rw [heq] at hkind
        cases hkind
  · intro h
    obtain ⟨d, hfault, hlacks⟩ : ∃ d, Body.FirstFault s argumentsPointer .nowhere stream.tokens d ∧
        d.fault.lacksCondition = true := by
      rcases h with hundivided | ⟨d, hfirst, hlacks⟩
      · obtain ⟨fault, pos, hfaulty⟩ := hundivided.exists_faulty .nowhere
        exact ⟨⟨fault, argumentsPointer, pos⟩, .inl ⟨hfaulty, rfl⟩, hfaulty.lacksCondition⟩
      · exact ⟨d, .inr hfirst, hlacks⟩
    refine ⟨unexpectedArguments s stream.tokens first.pos, ?_, rfl⟩
    rw [diagnostics_of_refused htokenize htokens hfault, if_pos hlacks]
    exact List.mem_singleton_self _
  · intro path f fault pos hentry hfaulty
    obtain ⟨d, hfirst⟩ := Body.exists_firstAmong hentry hfaulty
    have hreport := @diagnostics_of_refused s item _ _ _ _ _ htokenize htokens (.inr hfirst)
    refine ⟨d, hfirst, fun hlacks => ⟨?_, ?_, hfirst.pointer_prefix⟩, fun hlacks => ?_⟩
    · rw [hreport, hlacks]
      rfl
    · obtain ⟨_, _, -, hfaulty', -⟩ := hfirst
      exact Fault.code_of_isDirective hfaulty'.isDirective
    · rw [hreport, if_pos hlacks]

/-- An inner annotation two directives deep is named. -/
theorem expandItem_blames_inner :
    ∃ stream first rest d, tokenize "a, x, cfg_attrs(b, #![y])" = .ok stream ∧
      stream.tokens = first :: rest ∧
      Diagnostic.FirstAmong {} argumentsPointer (Body.EntryAt {} stream.tokens) d ∧
      (expandItem {} "struct S;" "a, x, cfg_attrs(b, #![y])").diagnostics = [d] ∧
      "E_DIRECTIVE_" <+: d.fault.code ∧ "/args/annotations/" <+: d.pointer := by
  obtain ⟨stream, htokenize, htest⟩ :=
    @exists_of_tokenize "a, x, cfg_attrs(b, #![y])"
      (fun stream => !stream.tokens.isEmpty &&
        !(Body.parse {} argumentsPointer .nowhere stream.tokens).isOk)
      (by decide +kernel)
  rw [Bool.and_eq_true, Bool.not_eq_true', List.isEmpty_eq_false_iff] at htest
  obtain ⟨first, rest, htokens⟩ := List.exists_cons_of_ne_nil htest.1
  obtain ⟨hunexpected, hblames⟩ :=
    @expandItem_blames_arguments {} "struct S;" _ _ _ _ htokenize htokens
  have hcodes : (expandItem {} "struct S;" "a, x, cfg_attrs(b, #![y])").diagnostics.all
      (fun d => d.fault.code != "E_INVOCATION_ARGUMENT_UNEXPECTED") = true := by decide +kernel
  have hexpected := mt hunexpected.2 fun h => by
    obtain ⟨d, hd, hcode⟩ := h
    exact bne_iff_ne.1 (List.all_eq_true.1 hcodes d hd) hcode
  cases hparse : Body.parse {} argumentsPointer .nowhere stream.tokens with
  | ok body =>
    rw [hparse] at htest
    cases htest.2
  | error d =>
    rcases Body.parse_eq_error_iff.1 hparse with ⟨hfaulty, -⟩ | hfirst
    · exact absurd (.inl hfaulty.undivided) hexpected
    have hlacks : d.fault.lacksCondition = false :=
      Bool.eq_false_iff.2 fun h => hexpected (.inr ⟨d, hfirst, h⟩)
    obtain ⟨path, f, hentry, hfaulty, -⟩ := id hfirst
    obtain ⟨d', hfirst', hreported, -⟩ := hblames path f _ _ hentry hfaulty
    obtain rfl := hfirst.unique hfirst' fun _ _ _ => Body.EntryAt.unique
    exact ⟨stream, first, rest, d, htokenize, htokens, hfirst, hreported hlacks⟩

/-- The comma is missing in a nested directive, and the arguments are reported, which have one. -/
theorem expandItem_nested_separator :
    ((expandItem {} "struct S;" "a, #[cfg_attrs(b)]").diagnostics.map fun d =>
        (d.fault.code, d.pointer)) =
      [(("E_INVOCATION_ARGUMENT_UNEXPECTED" : Text), ("/args" : Text))] ∧
    ∃ stream, tokenize "a, #[cfg_attrs(b)]" = .ok stream ∧ ¬ Body.Undivided stream.tokens := by
  refine ⟨by decide +kernel, ?_⟩
  obtain ⟨stream, htokenize, htest⟩ :=
    @exists_of_tokenize "a, #[cfg_attrs(b)]"
      (fun stream => !(Body.splitCondition stream.tokens).all fun x => x.1.isEmpty)
      (by decide +kernel)
  refine ⟨stream, htokenize, fun hundivided => ?_⟩
  rw [Body.undivided_iff.1 hundivided] at htest
  cases htest

end CondAttrs
