import CondAttrs.Proofs.Lowering.Genuine

/-!
# What nested attributes say

A directive is lowered to its condition and the contents of its nested attributes, with
commas between them. The contents that are written are compared here with the tokens of
the source. They agree in their *cores*, which leave out trivia, positions and the record
of punctuation.

Where no nested attribute is empty or has commas of its own, the commas of the arguments
separate the contents, and each text between two commas is that of one content.

## Main definitions

* `Token.core`, `Token.segments`: tokens up to their surroundings, and between commas.
* `Attribute.metaTokens`: what an attribute says between its brackets, as tokens.
* `Attribute.isSingle`: what it says is one meta item.

## Main statements

* `Attribute.core_contentTokens`: what is written for a nested attribute is what it says.
* `Body.Genuine.segments_arguments`: the arguments between their commas.
-/

namespace CondAttrs

/-! ## Cores -/

/-- The atom without the record of the punctuation behind it. -/
def Atom.core : Atom → Atom
  | punct c _ => punct c false
  | a => a

namespace Token

mutual

/-- The token without what depends on its surroundings. -/
def core : Token → Token
  | .atom _ _ a => .atom [] .nowhere a.core
  | .group _ _ d children _ => .group [] .nowhere d (coreAll children) []

/-- The tokens without what depends on their surroundings. -/
def coreAll : List Token → List Token
  | [] => []
  | t :: rest => core t :: coreAll rest

end

theorem coreAll_eq_map (ts : List Token) : coreAll ts = ts.map core := by
  induction ts with
  | nil => rfl
  | cons t rest ih => rw [coreAll, ih, List.map_cons]

theorem coreAll_append (first second : List Token) :
    coreAll (first ++ second) = coreAll first ++ coreAll second := by
  simp [coreAll_eq_map]

mutual

theorem core_forget : ∀ t : Token, t.forget.core = t.core
  | .atom _ _ _ => rfl
  | .group _ _ _ children _ => by simp only [forget, core, coreAll_forgetAll children]

theorem coreAll_forgetAll : ∀ ts : List Token, coreAll (forgetAll ts) = coreAll ts
  | [] => rfl
  | t :: rest => by rw [forgetAll, coreAll, coreAll, core_forget t, coreAll_forgetAll rest]

end

theorem isPunct_core (c : Char) (t : Token) : t.core.isPunct c = t.isPunct c := by
  cases t with
  | group => rfl
  | atom leading pos a => cases a <;> rfl

theorem core_withLeading (leading : Text) (t : Token) : (t.withLeading leading).core = t.core := by
  cases t <;> rfl

/-- Excerpts have the same cores. -/
theorem coreAll_excerpt (rest : Text) (ts : List Token) : coreAll (excerpt rest ts) = coreAll ts := by
  have hrejoin : ∀ t : Token, (t.rejoin rest).core = t.core := by
    intro t
    cases t with
    | group => rfl
    | atom leading pos a => cases a <;> rfl
  have hlast : ∀ ts : List Token, coreAll (rejoinLast rest ts) = coreAll ts := by
    intro ts
    fun_induction rejoinLast rest ts with
    | case1 => rfl
    | case2 t => simp only [coreAll, hrejoin]
    | case3 t u more ih => rw [coreAll, ih, ← coreAll]
  rw [excerpt, hlast]
  cases ts with
  | nil => rfl
  | cons t ts => rw [trimFirst, coreAll, core_withLeading, ← coreAll]

theorem isPunct_of_coreAll {c : Char} {ts ts' : List Token} (h : coreAll ts' = coreAll ts)
    (hts : ∀ t ∈ ts, t.isPunct c = false) : ∀ t ∈ ts', t.isPunct c = false := by
  intro t ht
  rw [coreAll_eq_map, coreAll_eq_map] at h
  have hcore : t.core ∈ ts.map core := h ▸ List.mem_map.2 ⟨t, ht, rfl⟩
  obtain ⟨u, hu, heq⟩ := List.mem_map.1 hcore
  rw [← isPunct_core, ← heq, isPunct_core]
  exact hts u hu

theorem isPunct_excerpt {c : Char} (rest : Text) {ts : List Token}
    (h : ∀ t ∈ ts, t.isPunct c = false) : ∀ t ∈ excerpt rest ts, t.isPunct c = false :=
  isPunct_of_coreAll (coreAll_excerpt rest ts) h

end Token

theorem TokenStream.coreAll_prepend (line : Text) (st : TokenStream) :
    Token.coreAll (st.prepend line).tokens = Token.coreAll st.tokens := by
  obtain ⟨_ | ⟨t, ts⟩, trailing⟩ := st
  · rfl
  · rw [prepend, Token.coreAll, Token.core_withLeading, ← Token.coreAll]

/-! ## Between commas -/

namespace Token

/-- The stretches between the commas of a token list; nothing comes behind a comma at the
end. -/
def segments (ts : List Token) : List (List Token) :=
  match ts with
  | [] => []
  | first :: rest =>
    (first :: rest).takeWhile (!isPunct ',' ·) ::
      segments ((first :: rest).dropWhile (!isPunct ',' ·)).tail
termination_by ts.length
decreasing_by
  have := (List.dropWhile_sublist (!isPunct ',' ·) (l := first :: rest)).length_le
  rw [List.length_tail]
  simp only [List.length_cons] at this ⊢
  omega

theorem segments_append {part : List Token} (h : ∀ t ∈ part, t.isPunct ',' = false) {comma : Token}
    (hcomma : comma.isPunct ',' = true) (rest : List Token) :
    segments (part ++ comma :: rest) = part :: segments rest := by
  have hpart : ∀ t ∈ part, (!isPunct ',' t) = true := fun t ht => by rw [h t ht]; rfl
  have htake : (part ++ comma :: rest).takeWhile (!isPunct ',' ·) = part := by
    rw [List.takeWhile_append_of_pos hpart, List.takeWhile_cons_of_neg (by simp [hcomma]),
      List.append_nil]
  have hdrop : (part ++ comma :: rest).dropWhile (!isPunct ',' ·) = comma :: rest := by
    rw [List.dropWhile_append_of_pos hpart, List.dropWhile_cons_of_neg (by simp [hcomma])]
  obtain ⟨first, more, hcons⟩ := List.exists_cons_of_ne_nil
    (show part ++ comma :: rest ≠ [] by simp)
  rw [hcons] at htake hdrop ⊢
  rw [segments, htake, hdrop, List.tail_cons]

theorem segments_single {part : List Token} (hne : part ≠ [])
    (h : ∀ t ∈ part, t.isPunct ',' = false) : segments part = [part] := by
  have hpart : ∀ t ∈ part, (!isPunct ',' t) = true := fun t ht => by rw [h t ht]; rfl
  have htake : part.takeWhile (!isPunct ',' ·) = part := by
    have := @List.takeWhile_append_of_pos _ (!isPunct ',' ·) part [] hpart
    simpa using this
  have hdrop : part.dropWhile (!isPunct ',' ·) = [] := by
    have := @List.dropWhile_append_of_pos _ (!isPunct ',' ·) part [] hpart
    simpa using this
  obtain ⟨first, more, rfl⟩ := List.exists_cons_of_ne_nil hne
  rw [segments, htake, hdrop, List.tail_nil, segments]

/-- Commas are found whatever surrounds them. -/
theorem segments_map {g : Token → Token} (hg : ∀ t, (g t).isPunct ',' = t.isPunct ',')
    (ts : List Token) : segments (ts.map g) = (segments ts).map (List.map g) := by
  have hcomp : (fun t : Token => !isPunct ',' t) ∘ g = fun t => !isPunct ',' t := by
    funext t
    simp [hg]
  fun_induction segments ts with
  | case1 => rw [List.map_nil, segments, List.map_nil]
  | case2 first rest ih =>
    rw [List.map_cons, segments, ← List.map_cons, List.takeWhile_map, List.dropWhile_map, hcomp,
      ← List.map_tail, ih, List.map_cons]

theorem segments_of_forgetAll {ts ts' : List Token} (h : forgetAll ts = forgetAll ts') :
    (segments ts).map forgetAll = (segments ts').map forgetAll := by
  have hmap : ∀ ts, (segments ts).map forgetAll = segments (forgetAll ts) := by
    intro ts
    rw [forgetAll_eq_map, segments_map fun t => isPunct_forget ',' t]
    exact List.map_congr_left fun part _ => forgetAll_eq_map part
  rw [hmap, hmap, h]

end Token

namespace Arguments

/-- The tokens of arguments: the condition and, behind commas, what the attributes say. -/
def tokens (condition : List Token) (metas : List (List Token)) : List Token :=
  condition ++ comma :: [comma].intercalate metas

theorem isPunct_comma : comma.isPunct ',' = true := rfl

section

variable {α : Type} {inset : α → Inset} {meaning : α → List Token} {l : List α}

theorem coreAll_tail (h : ∀ a ∈ l, ∀ d, Token.coreAll (inset a d) = Token.coreAll (meaning a)) :
    Token.coreAll (tail (l.map inset)).tokens =
      Token.coreAll ([comma].intercalate (l.map meaning)) := by
  induction l with
  | nil => rfl
  | cons a l ih =>
    obtain ⟨ha, hl⟩ := List.forall_mem_cons.1 h
    have ih := ih hl
    cases l with
    | nil =>
      rw [List.map_cons, List.map_nil, tail, TokenStream.coreAll_prepend, ha]
      simp
    | cons b l =>
      have hjoin : [comma].intercalate ((a :: b :: l).map meaning) =
          meaning a ++ comma :: [comma].intercalate ((b :: l).map meaning) := by
        simp [List.intercalate]
      rw [hjoin, Token.coreAll_append, Token.coreAll, ← ih, List.map_cons, List.map_cons, tail,
        TokenStream.coreAll_prepend, Token.coreAll_append, ha, Token.coreAll]

/-- The arguments that are written are the condition and what the attributes say. -/
theorem coreAll_stream (condition : List Token)
    (h : ∀ a ∈ l, ∀ d, Token.coreAll (inset a d) = Token.coreAll (meaning a)) :
    Token.coreAll (stream condition (l.map inset)).tokens =
      Token.coreAll (tokens condition (l.map meaning)) := by
  rw [stream, tokens, Token.coreAll_append, Token.coreAll_append, Token.coreAll_excerpt,
    Token.coreAll, Token.coreAll, coreAll_tail h]

/-- Between the commas of the arguments stand the condition and the insets, which are
seen by `view` behind a space. -/
theorem segments_tail {β : Type} {view : List Token → β} {value : α → β}
    (hcomma : ∀ a ∈ l, ∀ d, inset a d ≠ [] ∧ ∀ t ∈ inset a d, t.isPunct ',' = false)
    (hview : ∀ a ∈ l, ∀ d, view ((TokenStream.prepend [' '] ⟨inset a d, []⟩).tokens) = value a) :
    (Token.segments (tail (l.map inset)).tokens).map view = l.map value := by
  have hspaced : ∀ a ∈ l, ∀ d, ∃ spaced, spaced ≠ [] ∧ (∀ t ∈ spaced, t.isPunct ',' = false) ∧
      view spaced = value a ∧ ∀ more trailing,
        (TokenStream.prepend [' '] ⟨inset a d ++ more, trailing⟩).tokens = spaced ++ more := by
    intro a ha d
    obtain ⟨hne, hc⟩ := hcomma a ha d
    have hv := hview a ha d
    cases hi : inset a d with
    | nil => exact absurd hi hne
    | cons t ts =>
      rw [hi] at hc hv
      refine ⟨t.withLeading ([' '] ++ t.leading) :: ts, List.cons_ne_nil _ _, ?_, hv,
        fun _ _ => rfl⟩
      intro u hu
      rcases List.mem_cons.1 hu with rfl | hu
      · have ht := hc t (by simp)
        rwa [← Token.isPunct_core, Token.core_withLeading, Token.isPunct_core]
      · exact hc u (by simp [hu])
  induction l with
  | nil => rw [List.map_nil, tail, Token.segments, List.map_nil, List.map_nil]
  | cons a l ih =>
    obtain ⟨ha, hl⟩ := List.forall_mem_cons.1 hspaced
    have ih := ih (fun b hb => hcomma b (by simp [hb])) (fun b hb => hview b (by simp [hb])) hl
    cases l with
    | nil =>
      obtain ⟨spaced, hne, hc, hv, htokens⟩ := ha ')'
      have htail : (tail [inset a]).tokens = spaced := by
        have := htokens [] []
        rwa [List.append_nil, List.append_nil] at this
      rw [List.map_cons, List.map_nil, htail, Token.segments_single hne hc, List.map_cons, hv]
      rfl
    | cons b l =>
      obtain ⟨spaced, hne, hc, hv, htokens⟩ := ha ','
      have htail : (tail ((a :: b :: l).map inset)).tokens =
          spaced ++ comma :: (tail ((b :: l).map inset)).tokens := htokens _ _
      rw [htail, Token.segments_append hc isPunct_comma, List.map_cons, hv, ih]
      rfl

theorem segments_stream {β : Type} {view : List Token → β} {value : α → β} {condition : List Token}
    (hcondition : ∀ t ∈ condition, t.isPunct ',' = false)
    (hcomma : ∀ a ∈ l, ∀ d, inset a d ≠ [] ∧ ∀ t ∈ inset a d, t.isPunct ',' = false)
    (hview : ∀ a ∈ l, ∀ d, view ((TokenStream.prepend [' '] ⟨inset a d, []⟩).tokens) = value a) :
    (Token.segments (stream condition (l.map inset)).tokens).map view =
      view (Token.excerpt [','] condition) :: l.map value := by
  rw [stream, Token.segments_append (Token.isPunct_excerpt [','] hcondition) isPunct_comma,
    List.map_cons, segments_tail hcomma hview]

end

end Arguments

/-! ## What attributes say -/

mutual

/-- What the attribute says between its brackets: the content of a documentation comment
as an attribute, the tokens of brackets or of a bare attribute, and of a directive its
deferred form, in which the nested attributes stand in brackets. -/
def Attribute.metaTokens : Attribute → List Token
  | .plain (.doc _ _ _ value) => docTokens value
  | .plain form => form.content
  | .directive form ⟨condition, _, _, attributes⟩ =>
    form.path ++
      [.enclosed .paren ⟨Arguments.tokens condition (Attribute.bracketedMetas attributes), []⟩]

/-- What the attributes of a list say, each in brackets behind a hash. -/
def Attribute.bracketedMetas : List Attribute → List (List Token)
  | [] => []
  | attr :: rest =>
    [.mark [] '#' false, .enclosed .bracket ⟨attr.metaTokens, []⟩] ::
      Attribute.bracketedMetas rest

end

namespace Attribute

theorem bracketedMetas_eq_map (attributes : List Attribute) :
    bracketedMetas attributes = attributes.map fun a =>
      [.mark [] '#' false, .enclosed .bracket ⟨a.metaTokens, []⟩] := by
  induction attributes with
  | nil => rw [bracketedMetas, List.map_nil]
  | cons attr rest ih => rw [bracketedMetas, ih, List.map_cons]

theorem core_bracketedTokens {a : Attribute}
    (h : ∀ d, Token.coreAll (a.contentTokens d) = Token.coreAll a.metaTokens) (d : Char) :
    Token.coreAll (bracketedTokens a.contentTokens d) =
      Token.coreAll [.mark [] '#' false, .enclosed .bracket ⟨a.metaTokens, []⟩] := by
  simp only [bracketedTokens, Token.coreAll, Token.enclosed, Token.core, h]

mutual

/-- What is written for an attribute is what it says. -/
theorem core_contentTokens : ∀ (a : Attribute) (d : Char),
    Token.coreAll (a.contentTokens d) = Token.coreAll a.metaTokens
  | .plain (.doc _ _ _ value), d => rfl
  | .plain (.marked hash bang bracket), d => Token.coreAll_excerpt [d] bracket.children
  | .plain (.bare first rest), d => Token.coreAll_excerpt [d] (first :: rest)
  | .directive form ⟨condition, _, _, attributes⟩, d => by
    have hattributes := core_contentTokensAll attributes
    have hstream : Token.coreAll (Arguments.stream condition
        ((contentTokensAll attributes).map bracketedTokens)).tokens =
        Token.coreAll (Arguments.tokens condition (bracketedMetas attributes)) := by
      rw [contentTokensAll_eq_map, List.map_map, bracketedMetas_eq_map]
      exact Arguments.coreAll_stream condition fun a ha d => core_bracketedTokens (hattributes a ha) d
    rw [contentTokens, metaTokens, deferredTokens, Token.coreAll_append, Token.coreAll_append,
      Token.coreAll_excerpt]
    simp only [Token.coreAll, Token.enclosed, Token.core, hstream]

theorem core_contentTokensAll : ∀ (attributes : List Attribute), ∀ a ∈ attributes, ∀ d,
    Token.coreAll (a.contentTokens d) = Token.coreAll a.metaTokens
  | [] => by simp
  | attr :: rest =>
    List.forall_mem_cons.2 ⟨core_contentTokens attr, core_contentTokensAll rest⟩

end

/-- Whether what the attribute says is one meta item: brackets are not empty, and have no
commas. -/
def isSingle : Attribute → Bool
  | .plain (.marked _ _ bracket) =>
    !bracket.children.isEmpty && bracket.children.all (!Token.isPunct ',' ·)
  | _ => true

theorem metaTokens_single {s : Settings} {a : Attribute} (h : a.Genuine s)
    (hsingle : a.isSingle = true) :
    a.metaTokens ≠ [] ∧ ∀ t ∈ a.metaTokens, t.isPunct ',' = false := by
  rcases a with ⟨_ | ⟨hash, bang, bracket⟩ | ⟨first, rest⟩⟩ | ⟨form, condition, _, _, attributes⟩
  · rename_i leading pos marker value
    rw [metaTokens]
    refine ⟨by simp [docTokens], ?_⟩
    intro t ht
    simp only [docTokens, List.mem_cons, List.not_mem_nil, or_false] at ht
    rcases ht with rfl | rfl | rfl <;> rfl
  · simpa [isSingle, metaTokens, Form.content] using hsingle
  · rw [metaTokens]
    · exact ⟨List.cons_ne_nil first rest, (h.resolve_left (by simp [Form.isDoc])).2 rfl⟩
    · simp
  · rw [metaTokens]
    refine ⟨by simp, ?_⟩
    intro t ht
    rcases List.mem_append.1 ht with ht | ht
    · exact (Form.path_spec t ht).2
    · rw [List.mem_singleton.1 ht]
      rfl

theorem contentTokens_single {s : Settings} {a : Attribute} (h : a.Genuine s)
    (hsingle : a.isSingle = true) (d : Char) :
    a.contentTokens d ≠ [] ∧ ∀ t ∈ a.contentTokens d, t.isPunct ',' = false := by
  obtain ⟨hne, hcomma⟩ := metaTokens_single h hsingle
  have hcore := core_contentTokens a d
  refine ⟨?_, Token.isPunct_of_coreAll hcore hcomma⟩
  intro hnil
  rw [hnil, Token.coreAll_eq_map, Token.coreAll_eq_map, List.map_nil] at hcore
  exact hne (List.map_eq_nil_iff.1 hcore.symm)

/-- Contents have no blanks at their ends. -/
theorem strip_content (a : Attribute) : Text.strip a.content = a.content := by
  rcases a with ⟨_ | ⟨hash, bang, bracket⟩ | ⟨first, rest⟩⟩ | ⟨form, condition, _, _, attributes⟩
  · rename_i leading pos marker value
    refine Text.strip_of_ends rfl ?_
    have hcontent : (plain (.doc leading pos marker value)).content =
        ("doc = " ++ '"' :: Text.Quoted.encodeBody value) ++ ['"'] := by
      show "doc = " ++ Text.Quoted.encode value = _
      simp [Text.Quoted.encode]
    rw [hcontent, Text.endsBlank_append_of_ne_nil (by simp)]
    decide
  · exact Text.strip_strip _
  · exact Text.strip_strip _
  · rw [content, deferredText]
    refine Text.strip_of_ends ?_ ?_
    · have hhead := Text.head_strip (Token.renderAll form.path)
      rw [Form.pathText]
      cases hp : Text.strip (Token.renderAll form.path) with
      | nil => rfl
      | cons c more =>
        rw [hp] at hhead
        exact hhead
    · rw [Text.endsBlank_append_of_ne_nil (by decide)]
      decide

end Attribute

/-! ## The arguments of the native attribute -/

/-- What the arguments of the native attribute hold between their commas. -/
theorem Body.Genuine.segments_arguments {s : Settings} {b : Body Attribute} (h : b.Genuine s)
    (hsingle : ∀ a ∈ b.attributes, a.isSingle = true) :
    (Token.segments b.arguments.tokens).map Token.coreAll =
        (b.condition :: b.attributes.map Attribute.metaTokens).map Token.coreAll ∧
      (Token.segments b.arguments.tokens).map (fun ts => Text.strip (Token.renderAll ts)) =
        b.conditionText :: b.attributes.map Attribute.content := by
  obtain ⟨hcondition, hattributes⟩ := h
  rw [Attribute.genuineAll_iff] at hattributes
  have hcomma : ∀ a ∈ b.attributes, ∀ d, a.contentTokens d ≠ [] ∧
      ∀ t ∈ a.contentTokens d, t.isPunct ',' = false :=
    fun a ha d => Attribute.contentTokens_single (hattributes a ha) (hsingle a ha) d
  rw [arguments, Attribute.contentTokensAll_eq_map]
  constructor
  · rw [Arguments.segments_stream hcondition.comma hcomma fun a _ d => ?_, Token.coreAll_excerpt,
      List.map_cons, List.map_map]
    rw [TokenStream.coreAll_prepend]
    exact Attribute.core_contentTokens a d
  · rw [Arguments.segments_stream hcondition.comma hcomma fun a ha d => ?_,
      hcondition.quotable.render_excerpt, Text.strip_strip]
    · rfl
    · obtain ⟨hfluent, htext⟩ := (hattributes a ha).fluent
      have hrender : Token.renderAll (TokenStream.prepend [' '] ⟨a.contentTokens d, []⟩).tokens =
          ' ' :: a.content := by
        have hne := (hcomma a ha d).1
        rw [← htext, Arguments.text, ← hfluent.text d]
        have hprepend := TokenStream.render_prepend [' '] ⟨a.contentTokens d, []⟩
        cases hc : a.contentTokens d with
        | nil => exact absurd hc hne
        | cons t ts =>
          rw [hc] at hprepend
          simpa [TokenStream.render, TokenStream.prepend] using hprepend
      rw [hrender]
      exact a.strip_content

end CondAttrs
