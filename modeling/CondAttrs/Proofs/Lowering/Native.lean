import CondAttrs.Proofs.Lexical.Shebang
import CondAttrs.Proofs.Lowering.Meta
import Mathlib.Data.List.Basic

/-!
# The native attribute read back

What a directive becomes is one attribute: reading the text that is written for it gives an
attribute of the native name with one group of arguments. These are the condition and,
behind commas, what the nested attributes say.

The directive may stand behind the interpreter line of its file, which is written again in
front of the native attribute. The line must not leave a comment open then: whether it is an
interpreter line may depend on what follows it.

## Main definitions

* `Token.Within`: the token lists at all places of a token list.
* `Trivia.Opens`: what can stand in front of an attribute at the start of a text.
* `Trivia.steadyLeading`: an interpreter line in front of an attribute leaves no comment open.

## Main statements

* `Body.Genuine.read_native`: what is written for a directive is read as an attribute.
* `lowered_directive_reads_back`: the same for every directive of a text.
* `metaCount_lowered_ne`: its conditions cannot be left out.
-/

namespace CondAttrs

open Trivia (Closed)

/-! ## The place of an annotation -/

/-- The token lists at the places of a token list: from a place to the end of the list or
of the group that holds the place. -/
inductive Token.Within (tokens : List Token) : List Token → Prop where
  | whole : Within tokens tokens
  | behind {t : Token} {rest : List Token} : Within tokens (t :: rest) → Within tokens rest
  | inside {t : Token} {rest : List Token} : Within tokens (t :: rest) → Within tokens t.children

theorem Inherited.within {holds : List Token → Prop} (h : Inherited holds)
    {tokens ts : List Token} (hw : Token.Within tokens ts) (htokens : holds tokens) : holds ts := by
  induction hw with
  | whole => exact htokens
  | behind _ ih =>
    rw [← List.singleton_append] at ih
    exact h.right ih
  | @inside t rest _ ih =>
    rw [← List.singleton_append] at ih
    have hone := h.left ih
    cases t with
    | atom =>
      rw [← List.nil_append [_]] at hone
      exact h.left hone
    | group => exact h.inside hone

/-- What holds at a place of a text holds of the annotations that are read there. -/
theorem Inherited.scan {holds : List Token → Prop} (h : Inherited holds) {tokens ts : List Token}
    (hts : Token.Within tokens ts) (htokens : holds tokens) {s : Settings} {pointer : Text}
    {a : Attachment} (ha : a ∈ (Attachment.scan s pointer ts).1) : holds a.tokens := by
  have hplace := h.within hts htokens
  rw [← Attachment.scan_tokens s pointer ts] at hplace
  exact h.flatMap (h.left hplace) ha

namespace Trivia

/-- What stands in front of a hash is read as an interpreter line and trivia, whatever
follows the hash. -/
def Opens (leading : Text) : Prop :=
  ∃ line trivia, leading = line ++ trivia ∧ Closed trivia ∧
    (line = [] ∨ ∀ rest, readShebang (line ++ (trivia ++ '#' :: rest)) =
      .ok (line, trivia ++ '#' :: rest))

theorem Closed.opens {leading : Text} (h : Closed leading) : Opens leading :=
  ⟨[], leading, rfl, h, .inl rfl⟩

/-- Whether what follows an attribute has no say in how the text in front of it is read: an
interpreter line that belongs to it leaves no comment open. -/
def steadyLeading : Text → Bool
  | leading@('#' :: '!' :: _) => contained (spanLine leading).1
  | _ => true

/-- The interpreter line in front of a token is the first line of what stands there. -/
theorem contained_of_steadyLeading {line leading rest : Text} (hne : line ≠ [])
    (h : readShebang (line ++ (leading ++ rest)) = .ok (line, leading ++ rest))
    (hrest : Stops rest) (hl : steadyLeading (line ++ leading) = true) :
    contained line = true := by
  have hspan := spanLine_of_readShebang hne h
  -- the line end belongs to the trivia
  obtain ⟨-, hhead, hends⟩ := lineEnds_append_of_stops hrest [] (lineEnds_of_spanLine hspan)
  rw [List.append_nil] at hhead hends
  have hspan' := spanLine_stable hspan hhead hends
  obtain ⟨more, rfl⟩ := marks_of_readShebang hne h
  rw [List.cons_append, List.cons_append] at hspan' hl
  rwa [steadyLeading, hspan'] at hl

end Trivia

namespace Token

/-- The tokens run, and if the first is a hash, what stands in front of it can stand at the
start of a text. -/
def Anchored (ts : List Token) : Prop :=
  Settled ts ∧ ∀ t ∈ ts.head?, t.isPunct '#' = true → Trivia.steadyLeading t.leading = true →
    Trivia.Opens t.leading

theorem inherited_anchored : Inherited Anchored where
  left {first second} h := by
    refine ⟨inherited_settled.left h.1, fun t ht => h.2 t ?_⟩
    rw [List.head?_append, Option.mem_def.1 ht]
    rfl
  right {first second} h := by
    refine ⟨inherited_settled.right h.1, fun t ht => ?_⟩
    cases first with
    | nil => exact h.2 t ht
    | cons u first =>
      intro _ _
      obtain ⟨more, rfl⟩ := List.head?_eq_some_iff.1 ht
      obtain ⟨rest, hrest⟩ := h.1
      rw [signsAll_append, signsAll, signs_eq_cons u, List.cons_append, List.cons_append, Behind,
        runs_append, signsAll, signs_eq_cons t, List.cons_append] at hrest
      exact hrest.2.2.1.opens
  inside {leading pos d children closeLeading} h := by
    refine ⟨inherited_settled.inside h.1, fun t ht _ _ => ?_⟩
    obtain ⟨more, rfl⟩ := List.head?_eq_some_iff.1 ht
    obtain ⟨rest, hrest⟩ := h.1
    rw [signsAll_singleton, signs, Behind, signsAll, signs_eq_cons t, List.cons_append,
      List.cons_append] at hrest
    exact hrest.2.1.opens

/-- The tokens of a text are anchored. -/
theorem anchored_of_tokenize {t : Text} {stream : TokenStream} (h : tokenize t = .ok stream) :
    Anchored stream.tokens := by
  refine ⟨settled_of_tokenize h, ?_⟩
  obtain ⟨line, ⟨_ | ⟨first, more⟩, trailing⟩, hshebang, hruns, rfl⟩ := tokenize_runs h
  · simp [TokenStream.prepend]
  · intro u hu hhash hsteady
    obtain rfl : first.withLeading (line ++ first.leading) = u := by
      simpa [TokenStream.prepend] using hu
    rw [leading_withLeading] at hsteady ⊢
    have hclosed : Closed first.leading := by
      have := hruns.1
      simp only [signsAll] at this
      rw [signs_eq_cons, List.cons_append] at this
      exact this.1
    refine ⟨line, first.leading, rfl, hclosed, ?_⟩
    by_cases hne : line = []
    · exact .inl hne
    right
    intro rest
    -- the first token is a hash, before and after
    obtain ⟨leading, pos, joint, hfirst⟩ := isPunct_iff.1 hhash
    obtain ⟨rest', hrender⟩ : ∃ rest', TokenStream.render ⟨first :: more, trailing⟩ =
        first.leading ++ '#' :: rest' := by
      cases first with
      | group => cases hfirst
      | atom leading' pos' a =>
        cases hfirst
        refine ⟨renderAll more ++ trailing, ?_⟩
        simp [TokenStream.render, renderAll, render, Token.leading, Atom.text]
    have happend := Trivia.readShebang_append hshebang
    rw [hrender] at hshebang happend
    rw [← happend] at hshebang
    have hstops : ∀ rest, Trivia.Stops ('#' :: rest) := Trivia.stops_of_ne (by decide) (by decide)
    exact Trivia.readShebang_opening hne hshebang
      (Trivia.contained_of_steadyLeading hne hshebang (hstops _) hsteady) hclosed (hstops _)
      (hstops _)

end Token

/-- What stands in front of an attribute of a text can stand at the start of a text. -/
theorem Form.Proper.opens {f : Form} (h : f.Proper) (hdoc : f.isDoc = false)
    (hanchored : Token.Anchored f.tokens) (hsteady : Trivia.steadyLeading f.leading = true) :
    Trivia.Opens f.leading := by
  cases f with
  | doc => cases hdoc
  | marked hash bang bracket =>
    have hattr := h.resolve_left (by simp [hdoc])
    exact hanchored.2 hash rfl hattr.1 hsteady
  | bare first rest => exact absurd h (by simp [Proper, isDoc, IsAttribute])

/-! ## Reading back -/

/-- The text of the native attribute is read as that attribute. -/
theorem Body.Genuine.tokenize_native {s : Settings} {b : Body Attribute} (h : b.Genuine s)
    (hnative : Settings.isIdentifier s.native = true) {leading : Text}
    (hl : Trivia.Opens leading) (inner : Bool) :
    ∃ stream, tokenize (leading ++ b.native s inner) = .ok stream ∧ stream.trailing = [] ∧
      Token.forgetAll stream.tokens = Token.forgetAll (b.nativeForm s leading inner).tokens := by
  obtain ⟨line, trivia, rfl, hclosed, hline⟩ := hl
  -- behind the line there is a run
  have hruns : TokenStream.Runs ⟨(b.nativeForm s trivia inner).tokens, []⟩ :=
    ⟨⟨hclosed, h.behind_native hnative trivia inner []⟩, Trivia.final_nil⟩
  have hrender : TokenStream.render ⟨(b.nativeForm s trivia inner).tokens, []⟩ =
      trivia ++ b.native s inner := by
    rw [TokenStream.render, h.render_native, List.append_nil]
  obtain ⟨rest, htext⟩ : ∃ rest, b.native s inner = '#' :: rest ∧
      (rest.head? = some '!' → ∃ more, rest = '!' :: '[' :: more) := by
    cases inner with
    | false => exact ⟨'[' :: _, rfl, by simp⟩
    | true => exact ⟨'!' :: '[' :: _, rfl, fun _ => ⟨_, rfl⟩⟩
  have hshebang : Trivia.readShebang (line ++ (trivia ++ b.native s inner)) =
      .ok (line, trivia ++ b.native s inner) := by
    rw [htext.1]
    rcases hline with rfl | hline
    · exact Trivia.readShebang_hash hclosed htext.2
    · exact hline rest
  rw [← hrender] at hshebang
  obtain ⟨stream, htokenize, htrailing, hforget⟩ := tokenize_of_runs hshebang hruns
  rw [hrender] at htokenize
  rw [List.append_assoc]
  exact ⟨stream, htokenize, htrailing, hforget⟩

theorem Form.content_of_forget {f g : Form} (h : f.forget = g.forget) {first second : Token}
    (hg : g.content = [first, second]) :
    ∃ first' second', f.content = [first', second'] ∧ first'.forget = first.forget ∧
      second'.forget = second.forget := by
  have hcontent := congrArg Form.content h
  rw [content_forget, content_forget, hg, Token.forgetAll_eq_map, Token.forgetAll_eq_map] at hcontent
  obtain ⟨first', rest, hf, hfirst, hrest⟩ := List.map_eq_cons_iff.1 hcontent
  obtain ⟨second', rest, rfl, hsecond, hnil⟩ := List.map_eq_cons_iff.1 hrest
  obtain rfl := List.map_eq_nil_iff.1 hnil
  exact ⟨first', second', hf, hfirst, hsecond⟩

/-- The native attribute is read as one attribute, with the arguments that are written. -/
theorem Body.Genuine.read_native {s : Settings} {b : Body Attribute} (h : b.Genuine s)
    (hnative : Settings.isIdentifier s.native = true) {leading : Text}
    (hl : Trivia.Opens leading) (inner : Bool) :
    ∃ (out : TokenStream) (attr : Form) (name group : Token),
      tokenize (leading ++ b.native s inner) = .ok out ∧ out.trailing = [] ∧
      Form.readAll out.tokens = ([attr], []) ∧ attr.isInner = inner ∧
      attr.content = [name, group] ∧ name.ident? = some s.native ∧
      group.isGroup .paren = true ∧
      Token.forgetAll group.children = Token.forgetAll b.arguments.tokens := by
  obtain ⟨out, hout, htrailing, hforget⟩ := h.tokenize_native hnative hl inner
  obtain ⟨attr, hattr, htokens, hattrforget⟩ :=
    Form.exists_of_forgetAll (.inr (isAttribute_native s leading inner b)) hforget
  obtain ⟨name, group, hcontent, hname, hgroup⟩ := Form.content_of_forget hattrforget rfl
  refine ⟨out, attr, name, group, hout, htrailing, ?_, ?_, hcontent, ?_, ?_, ?_⟩
  · have hall : Form.readAll ([attr].flatMap Form.tokens ++ []) = ([attr], []) :=
      Form.readAll_of_proper (fun g hg => (List.mem_singleton.1 hg) ▸ hattr) rfl
    simpa [htokens] using hall
  · rw [← Form.isInner_forget, hattrforget, Form.isInner_forget]
    cases inner <;> rfl
  · rw [← Token.ident?_forget, hname]
    rfl
  · rw [← Token.isGroup_forget, hgroup]
    rfl
  · rw [← Token.children_forget, hgroup, Token.children_forget]
    rfl

/-- What is written for a directive of a text is read as one attribute of the same kind, of
the native name and with one group of arguments. These are the condition and what the
nested attributes say, with commas between them. If every nested attribute is a single meta
item, the commas separate the condition and these items, one for each nested attribute. -/
theorem lowered_directive_reads_back {s : Settings}
    (hnative : Settings.isIdentifier s.native = true) {t : Text} {stream : TokenStream}
    (htokenize : tokenize t = .ok stream) {ts : List Token}
    (hts : Token.Within stream.tokens ts) {pointer : Text} {form : Form} {body : Body Attribute}
    (hscan : .accepted (.directive form body) ∈ (Attachment.scan s pointer ts).1)
    (hsteady : Trivia.steadyLeading form.leading = true) (hquiet : body.quiet = true) :
    ∃ (out : TokenStream) (attr : Form) (name group : Token),
      tokenize (Attachment.lower s (.accepted (.directive form body))) = .ok out ∧
      out.trailing = [] ∧ Form.readAll out.tokens = ([attr], []) ∧
      attr.isInner = form.isInner ∧ attr.content = [name, group] ∧
      name.ident? = some s.native ∧ group.isGroup .paren = true ∧
      Token.coreAll group.children =
        Token.coreAll (Arguments.tokens body.condition
          (body.attributes.map Attribute.metaTokens)) ∧
      ((∀ a ∈ body.attributes, a.isSingle = true) →
        (∀ a ∈ body.attributes, a.metaTokens ≠ []) ∧
        (Token.segments group.children).map Token.coreAll =
          (body.condition :: body.attributes.map Attribute.metaTokens).map Token.coreAll ∧
        (Token.segments group.children).map (fun ts => Text.strip (Token.renderAll ts)) =
          body.conditionText :: body.attributes.map Attribute.content) := by
  obtain ⟨hproper, pointer', hok⟩ := (Attachment.scan_scanned s pointer ts _ hscan).ofForm_eq
  have hanchored : Token.Anchored form.tokens :=
    Token.inherited_anchored.scan hts (Token.anchored_of_tokenize htokenize) hscan
  -- the directive stands at a place of the text, so that its parts can be quoted
  obtain ⟨⟨hdoc, -, -⟩, hgenuine⟩ :=
    Attribute.genuine_of_ofForm (hproper.placed_of_settled hanchored.1) hok hquiet
  have hbody : body.Genuine s := hgenuine
  obtain ⟨out, attr, name, group, hout, htrailing, hread, hinner, hcontent, hname, hgroup,
    hchildren⟩ := hbody.read_native hnative (hproper.opens hdoc hanchored hsteady) form.isInner
  refine ⟨out, attr, name, group, hout, htrailing, hread, hinner, hcontent, hname, hgroup, ?_, ?_⟩
  · rw [← Token.coreAll_forgetAll, hchildren, Token.coreAll_forgetAll, Body.arguments,
      Attribute.contentTokensAll_eq_map]
    exact Arguments.coreAll_stream _ fun a _ d => a.core_contentTokens d
  · intro hsingle
    obtain ⟨hcores, htexts⟩ := hbody.segments_arguments hsingle
    have hsegments := Token.segments_of_forgetAll hchildren
    refine ⟨fun a ha => ?_, ?_, ?_⟩
    · exact (Attribute.metaTokens_single (Attribute.genuineAll_iff.1 hbody.2 a ha) (hsingle a ha)).1
    · have := congrArg (List.map Token.coreAll) hsegments
      simpa [Function.comp_def, Token.coreAll_forgetAll, hcores] using this
    · have := congrArg (List.map fun ts => Text.strip (Token.renderAll ts)) hsegments
      simpa [Function.comp_def, Token.renderAll_forgetAll, htexts] using this

/-! ## At concrete texts -/

/-- Whether a directive at the start of a text passes a test. -/
def Attachment.anyDirective (s : Settings) (t : Text) (test : Form → Body Attribute → Bool) : Bool :=
  match tokenize t with
  | .error _ => false
  | .ok stream =>
    (scan s [] stream.tokens).1.any fun
      | .accepted (.directive form body) => test form body
      | _ => false

theorem Attachment.exists_of_anyDirective {s : Settings} {t : Text}
    {test : Form → Body Attribute → Bool} (h : anyDirective s t test = true) :
    ∃ stream form body, tokenize t = .ok stream ∧
      .accepted (.directive form body) ∈ (scan s [] stream.tokens).1 ∧ test form body = true := by
  unfold anyDirective at h
  split at h
  · cases h
  · rename_i stream hstream
    obtain ⟨a, ha, htest⟩ := List.any_eq_true.1 h
    split at htest
    · exact ⟨stream, _, _, hstream, ha, htest⟩
    · cases htest

/-- An inner directive behind an interpreter line, with a documentation comment, brackets, a
bare attribute and a directive nested in it. -/
theorem lowered_directive_reads_back_nested :
    let t : Text := "#!/bin/sh\n#![cfg_attrs(unix, /** d */ #[a(b, c)] e, #[cfg_attrs(f, g)])]"
    ∃ stream form body, tokenize t = .ok stream ∧
      .accepted (.directive form body) ∈ (Attachment.scan {} [] stream.tokens).1 ∧
      ∃ (out : TokenStream) (attr : Form) (name group : Token),
        tokenize (Attachment.lower {} (.accepted (.directive form body))) = .ok out ∧
        Form.readAll out.tokens = ([attr], []) ∧ attr.isInner = true ∧
        attr.content = [name, group] ∧ name.ident? = some "cfg_attr" ∧
        (Token.segments group.children).map (fun ts => Text.strip (Token.renderAll ts)) =
          (["unix", "doc = \" d \"", "a(b, c)", "e", "cfg_attrs(f, #[g])"] : List Text) := by
  intro t
  obtain ⟨stream, form, body, htokenize, hscan, htest⟩ :=
    @Attachment.exists_of_anyDirective {} t
      (fun form body => form.isInner && Trivia.steadyLeading form.leading && body.quiet &&
        body.attributes.all Attribute.isSingle &&
        (body.conditionText :: body.attributes.map Attribute.content ==
          (["unix", "doc = \" d \"", "a(b, c)", "e", "cfg_attrs(f, #[g])"] : List Text)))
      (by decide +kernel)
  simp only [Bool.and_eq_true, List.all_eq_true, beq_iff_eq] at htest
  obtain ⟨⟨⟨⟨hinner, hsteady⟩, hquiet⟩, hsingle⟩, htexts⟩ := htest
  obtain ⟨out, attr, name, group, hout, -, hread, hattr, hcontent, hname, -, -, hsegments⟩ :=
    lowered_directive_reads_back (by decide) htokenize .whole hscan hsteady hquiet
  refine ⟨stream, form, body, htokenize, hscan, out, attr, name, group, hout, hread, ?_, hcontent,
    hname, ?_⟩
  · rw [hattr, hinner]
  · rw [(hsegments hsingle).2.2, htexts]

/-- The number of meta items behind the condition, if the text is one attribute with one
group of arguments. -/
def metaCount? (t : Text) : Option Nat :=
  match tokenize t with
  | .error _ => none
  | .ok stream =>
    match Form.readAll stream.tokens with
    | ([attr], []) =>
      match attr.content with
      | [_, group] => some (Token.segments group.children).tail.length
      | _ => none
    | _ => none

/-- The conditions cannot be left out. Empty brackets leave no meta item, and brackets with
a comma leave two. A line of documentation at the end of brackets or of the condition
swallows what is written behind it. An interpreter line that leaves a comment open is none
any more when the end of the comment has gone. -/
theorem metaCount_lowered_ne :
    (["#[cfg_attrs(a, #[])]", "#[cfg_attrs(a, #[b, c])]", "#[cfg_attrs(a, #[b /// d\n])]",
        "#[cfg_attrs(a /// d\n, b)]", "#! /*\n#[cfg_attrs(a, b // */ x\n)]"] :
        List Text).Forall fun t =>
      ∃ stream form body, tokenize t = .ok stream ∧
        .accepted (.directive form body) ∈ (Attachment.scan {} [] stream.tokens).1 ∧
        metaCount? (Attachment.lower {} (.accepted (.directive form body))) ≠
          some body.attributes.length := by
  have hall : ∀ t ∈ (["#[cfg_attrs(a, #[])]", "#[cfg_attrs(a, #[b, c])]",
      "#[cfg_attrs(a, #[b /// d\n])]", "#[cfg_attrs(a /// d\n, b)]",
      "#! /*\n#[cfg_attrs(a, b // */ x\n)]"] : List Text),
      Attachment.anyDirective {} t (fun form body =>
        metaCount? (Attachment.lower {} (.accepted (.directive form body))) !=
          some body.attributes.length) = true := by
    decide +kernel
  refine List.forall_iff_forall_mem.2 fun t ht => ?_
  obtain ⟨stream, form, body, htokenize, hscan, htest⟩ :=
    Attachment.exists_of_anyDirective (hall t ht)
  exact ⟨stream, form, body, htokenize, hscan, bne_iff_ne.1 htest⟩

end CondAttrs
