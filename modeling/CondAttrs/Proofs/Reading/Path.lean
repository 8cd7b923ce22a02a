import CondAttrs.Proofs.Reading.Grammar
import CondAttrs.Token.Tree
import Mathlib.Computability.Language

/-!
# Paths as a regular language

The paths that head attributes are the words of the regular expression `[::] ident (:: ident)*`,
where `::` is a colon that is joint and a second colon. Here the expression is written down on the
tokens themselves, with none of the tests that the reader makes, and the reader is shown to take
its longest word.

The reader looks three tokens ahead, so that it passes a separator only together with the segment
behind it. A separator with no identifier behind it, a doubled one and a lone one are therefore
left to what follows, and the path ends with its last whole segment.

## Main definitions

* `AttributePath.separators`, `AttributePath.segments`, `AttributePath.paths`: the regular
  expression.

## Main statements

* `AttributePath.mem_paths`: its words are the paths of the grammar of directives.
* `AttributePath.split_eq_iff_longest`: the longest word at the start of the tokens is split off.
-/

namespace CondAttrs

namespace AttributePath

open scoped Computability

/-! ## The regular expression -/

/-- The separator `::`. Its first colon is joint; the second one may be joint to what follows. -/
def separators : Language Token :=
  {colons | ∃ leading pos leading' pos' joint,
    colons = [.atom leading pos (.punct ':' true), .atom leading' pos' (.punct ':' joint)]}

/-- A segment is an identifier. -/
def segments : Language Token :=
  {word | ∃ leading pos name, word = [.atom leading pos (.ident name)]}

/-- The paths `[::] ident (:: ident)*`. -/
def paths : Language Token :=
  (1 + separators) * segments * (separators * segments)∗

theorem mem_separators {colons : List Token} :
    colons ∈ separators ↔ ∃ first second, isSeparator first second = true ∧
      colons = [first, second] := by
  constructor
  · rintro ⟨leading, pos, leading', pos', joint, rfl⟩
    exact ⟨_, _, rfl, rfl⟩
  · rintro ⟨first, second, h, rfl⟩
    rw [isSeparator, Bool.and_eq_true] at h
    obtain ⟨leading, pos, rfl⟩ := Token.isJoint_iff.1 h.1
    obtain ⟨leading', pos', joint, rfl⟩ := Token.isPunct_iff.1 h.2
    exact ⟨leading, pos, leading', pos', joint, rfl⟩

theorem mem_segments {word : List Token} :
    word ∈ segments ↔ ∃ segment : Token, segment.isIdent = true ∧ word = [segment] := by
  constructor
  · rintro ⟨leading, pos, name, rfl⟩
    exact ⟨_, rfl, rfl⟩
  · rintro ⟨segment, h, rfl⟩
    obtain ⟨leading, pos, name, rfl⟩ := Token.isIdent_iff.1 h
    exact ⟨leading, pos, name, rfl⟩

theorem mem_separators_mul_segments {part : List Token} :
    part ∈ separators * segments ↔ ∃ first second segment, isSeparator first second = true ∧
      segment.isIdent = true ∧ part = [first, second, segment] := by
  rw [Language.mem_mul]
  constructor
  · rintro ⟨colons, hcolons, word, hword, rfl⟩
    obtain ⟨first, second, hseparator, rfl⟩ := mem_separators.1 hcolons
    obtain ⟨segment, hsegment, rfl⟩ := mem_segments.1 hword
    exact ⟨first, second, segment, hseparator, hsegment, rfl⟩
  · rintro ⟨first, second, segment, hseparator, hsegment, rfl⟩
    exact ⟨_, mem_separators.2 ⟨first, second, hseparator, rfl⟩,
      _, mem_segments.2 ⟨segment, hsegment, rfl⟩, rfl⟩

/-- The star stands for the further segments. -/
theorem mem_kstar_iff_further {tokens : List Token} :
    tokens ∈ (separators * segments)∗ ↔ Further tokens := by
  constructor
  · rw [Language.mem_kstar]
    rintro ⟨parts, rfl, hparts⟩
    induction parts with
    | nil => exact .nil
    | cons part parts ih =>
      rw [List.forall_mem_cons] at hparts
      obtain ⟨first, second, segment, hseparator, hsegment, rfl⟩ :=
        mem_separators_mul_segments.1 hparts.1
      exact .cons hseparator hsegment (ih hparts.2)
  · intro h
    induction h with
    | nil => exact Language.nil_mem_kstar _
    | @cons first second segment rest hseparator hsegment _ ih =>
      rw [← Language.one_add_self_mul_kstar_eq_kstar]
      have hpart : [first, second, segment] ∈ separators * segments :=
        mem_separators_mul_segments.2 ⟨first, second, segment, hseparator, hsegment, rfl⟩
      exact .inr (Language.append_mem_mul hpart ih)

/-- The words of the expression are the paths of the grammar of directives. -/
theorem mem_paths {path : List Token} : path ∈ paths ↔ IsPath path := by
  rw [paths, Language.mem_mul]
  constructor
  · rintro ⟨start, hstart, more, hmore, rfl⟩
    obtain ⟨root, hroot, word, hword, rfl⟩ := Language.mem_mul.1 hstart
    have hfurther := mem_kstar_iff_further.1 hmore
    rcases hroot with rfl | hroot
    · obtain ⟨segment, hsegment, rfl⟩ := mem_segments.1 hword
      exact .relative hsegment hfurther
    · obtain ⟨first, second, segment, hseparator, hsegment, hpart⟩ :=
        mem_separators_mul_segments.1 (Language.append_mem_mul hroot hword)
      rw [hpart]
      exact .rooted hseparator hsegment hfurther
  · intro h
    cases h with
    | @relative segment rest hsegment hfurther =>
      have hroot : [] ∈ 1 + separators := .inl Language.nil_mem_one
      have hword : [segment] ∈ segments := mem_segments.2 ⟨segment, hsegment, rfl⟩
      exact ⟨[segment], Language.append_mem_mul hroot hword, rest,
        mem_kstar_iff_further.2 hfurther, rfl⟩
    | @rooted first second segment rest hseparator hsegment hfurther =>
      have hroot : [first, second] ∈ 1 + separators :=
        .inr (mem_separators.2 ⟨first, second, hseparator, rfl⟩)
      have hword : [segment] ∈ segments := mem_segments.2 ⟨segment, hsegment, rfl⟩
      exact ⟨[first, second] ++ [segment], Language.append_mem_mul hroot hword, rest,
        mem_kstar_iff_further.2 hfurther, rfl⟩

/-! ## The longest word -/

/-- The reader splits tokens in two in the one way in which the first half is a path or empty and
no longer prefix of the tokens is a path. -/
theorem split_eq_iff_longest (tokens path arguments : List Token) :
    split tokens = (path, arguments) ↔
      path ++ arguments = tokens ∧ (path = [] ∨ path ∈ paths) ∧
        ∀ longer, longer <+: tokens → path.length < longer.length → longer ∉ paths := by
  rw [← heads_iff, mem_paths]
  constructor
  · intro h
    refine ⟨h.append, h.isPath, fun longer hstarts hlonger hpath => ?_⟩
    have hlength := h.longest longer (mem_paths.1 hpath) hstarts
    exact absurd hlonger (Nat.not_lt.2 hlength)
  · rintro ⟨happend, hpath, hlongest⟩
    refine ⟨happend, hpath, fun longer hlonger hstarts => Nat.not_lt.1 fun hlength => ?_⟩
    exact hlongest longer hstarts hlength (mem_paths.2 hlonger)

/-- A doubled separator ends the path in front of it. -/
example :
    ((tokenize "::a::b::::c(x)").toOption.map fun stream =>
      Token.renderAll (split stream.tokens).1) = some "::a::b" := by
  decide +kernel

end AttributePath

end CondAttrs
