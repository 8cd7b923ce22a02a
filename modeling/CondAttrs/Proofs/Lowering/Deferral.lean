import CondAttrs.Expansion
import CondAttrs.Proofs.Lowering.Native
import CondAttrs.Proofs.Lowering.Path

/-!
# Deferred directives come back

A nested directive is not resolved but written again, with its nested attributes in
brackets. A later run meets it as the invocation of an expansion, its arguments given as a
text. Reading them back gives the same condition and attributes with the same contents, so
that the native attribute is the one that the directive would have had at the top: one
level of nesting is resolved, and the deeper directives are deferred with the same texts.

What is written is read back by recursion on the attribute.

## Main definitions

* `Attribute.written`: an attribute as it stands in a deferred directive.
* `Attribute.Holds`: the attributes nested in an attribute.

## Main statements

* `Attribute.Genuine.reread`: what is written for an attribute has the same content.
* `Body.Genuine.invocationHead_deferred`: the arguments of a deferred directive become its
  native attribute.
* `expandItem_deferred`: expansion with these arguments.
-/

namespace CondAttrs

/-! ## What is written is read back -/

/-- An attribute as it stands among the arguments of a deferred directive. -/
def Attribute.written (a : Attribute) : Form :=
  .marked (.mark [' '] '#' false) none (.enclosed .bracket ⟨a.contentTokens ']', []⟩)

/-- The arguments of a deferred directive. -/
def Body.deferredArguments (b : Body Attribute) : TokenStream :=
  Arguments.stream b.condition ((Attribute.contentTokensAll b.attributes).map bracketedTokens)

namespace Form

theorem entries_attribute {f : Form} (h : f.IsAttribute) (rest : List Token) :
    entries (f.tokens ++ rest) = f :: entries rest := by
  have hread := h.read rest
  obtain ⟨hash, more, bracket, htokens, hhash, -, -⟩ := h.tokens_eq
  have hcomma : ¬ hash.isPunct ',' = true := by
    obtain ⟨_, _, _, rfl⟩ := Token.isPunct_iff.1 hhash
    simp [Token.isPunct]
  rw [htokens, List.cons_append] at hread ⊢
  rw [entries, if_neg hcomma]
  split
  · rename_i g after hg
    rw [hread] at hg
    cases hg
    rfl
  · rename_i hg
    rw [hread] at hg
    cases hg

theorem entries_comma {t : Token} (h : t.isPunct ',' = true) (rest : List Token) :
    entries (t :: rest) = entries rest := by
  rw [entries, if_pos h]

end Form

theorem Attribute.isAttribute_written (a : Attribute) : a.written.IsAttribute := by
  simp [written, Form.IsAttribute, Token.mark, Token.isPunct, Token.enclosed, Token.isGroup]

/-- The entries of a deferred directive are its attributes, in brackets. -/
theorem Attribute.entries_tail (attributes : List Attribute) :
    Form.entries (Arguments.tail ((contentTokensAll attributes).map bracketedTokens)).tokens =
      attributes.map written := by
  rw [contentTokensAll_eq_map, List.map_map]
  induction attributes with
  | nil => rw [List.map_nil, Arguments.tail, Form.entries, List.map_nil]
  | cons a rest ih =>
    cases rest with
    | nil =>
      have htokens : (Arguments.tail ([a].map (bracketedTokens ∘ contentTokens))).tokens =
          a.written.tokens ++ [] := rfl
      rw [htokens, Form.entries_attribute a.isAttribute_written, Form.entries]
      rfl
    | cons b rest =>
      have htokens : (Arguments.tail ((a :: b :: rest).map (bracketedTokens ∘ contentTokens))).tokens =
          a.written.tokens ++ Arguments.comma ::
            (Arguments.tail ((b :: rest).map (bracketedTokens ∘ contentTokens))).tokens := rfl
      rw [htokens, Form.entries_attribute a.isAttribute_written,
        Form.entries_comma Arguments.isPunct_comma, ih]
      rfl

theorem Body.listTokens_of_head {t : Token} {rest : List Token} (h : t.isGroup .brace = false) :
    listTokens (t :: rest) = t :: rest := by
  have hnone : braceContent (t :: rest) = none := by
    rcases rest with _ | ⟨u, _ | ⟨v, rest⟩⟩ <;> simp [braceContent, h]
  rw [listTokens, hnone]
  rfl

theorem Body.listTokens_tail (attributes : List Attribute) :
    listTokens (Arguments.tail ((Attribute.contentTokensAll attributes).map bracketedTokens)).tokens =
      (Arguments.tail ((Attribute.contentTokensAll attributes).map bracketedTokens)).tokens := by
  rcases attributes with _ | ⟨a, _ | ⟨b, rest⟩⟩
  · rfl
  · exact listTokens_of_head rfl
  · exact listTokens_of_head rfl

namespace Body

theorem splitCondition_of_comma {condition : List Token}
    (h : ∀ t ∈ condition, t.isPunct ',' = false) {comma : Token}
    (hcomma : comma.isPunct ',' = true) (rest : List Token) :
    splitCondition (condition ++ comma :: rest) = some (condition, comma, rest) := by
  induction condition with
  | nil => rw [List.nil_append, splitCondition, if_pos hcomma]
  | cons t condition ih =>
    obtain ⟨ht, hcondition⟩ := List.forall_mem_cons.1 h
    rw [List.cons_append, splitCondition, if_neg (by simp [ht]), ih hcondition]
    rfl

/-- The arguments of a deferred directive are read back if its attributes are. -/
theorem reread_of_entries {s : Settings} {b : Body Attribute}
    (hcondition : Token.IsCondition b.condition) {pointer : Text} {attributes : List Attribute}
    (hattributes : Attribute.ofEntries s pointer 0 (b.attributes.map Attribute.written) =
      .ok attributes) (anchor : Position) :
    ∃ b', parse s pointer anchor b.deferredArguments.tokens = .ok b' ∧
      b'.conditionText = b.conditionText ∧ b'.attributes = attributes := by
  refine ⟨_, parse_eq_ok_iff.2 ⟨Token.excerpt [','] b.condition, Arguments.comma,
    (Arguments.tail ((Attribute.contentTokensAll b.attributes).map bracketedTokens)).tokens,
    attributes, ?_, ?_, ?_, rfl⟩, ?_, rfl⟩
  · exact splitCondition_of_comma (Token.isPunct_excerpt [','] hcondition.comma)
      Arguments.isPunct_comma _
  · intro hnil
    have hlength := (AttributePath.Alike.excerpt [','] b.condition).length
    rw [hnil, List.length_nil] at hlength
    exact hcondition.ne_nil (List.length_eq_zero_iff.1 hlength.symm)
  · rw [listTokens_tail, Attribute.entries_tail]
    exact hattributes
  · rw [conditionText, hcondition.quotable.render_excerpt, Text.strip_strip]
    rfl

end Body

namespace Attribute

theorem content_directive (form : Form) (b : Body Attribute) :
    (directive form b).content = b.deferred form := by
  rw [content]
  rfl

theorem ofForm_plain {s : Settings} {pointer : Text} {f : Form} (h : f.name ≠ s.directive) :
    ofForm s pointer f = .ok (.plain f) :=
  ofForm_eq_ok_iff.2 (.inl ⟨.inr h, rfl⟩)

theorem name_written_doc (leading : Text) (pos : Position) (marker : DocMarker) (value : Text) :
    (written (.plain (.doc leading pos marker value))).name = "doc" := by
  simp [written, Form.name, Form.path, Form.content, Token.enclosed, Token.children, contentTokens,
    Form.contentTokens, docTokens, AttributePath.split, AttributePath.spanSegments,
    AttributePath.name, Token.word, Token.mark, Token.isIdent, Token.ident?]

/-- What is written for an annotation that is no directive is none. -/
theorem reread_excerpt {s : Settings} {f : Form} (hdoc : f.isDoc = false)
    (hname : f.name ≠ s.directive) (hquotable : Token.Quotable f.content)
    (hcontent : (plain f).contentTokens = fun d => Token.excerpt [d] f.content) (pointer : Text) :
    ∃ a', ofForm s pointer (written (.plain f)) = .ok a' ∧ a'.content = (plain f).content := by
  have hwritten : (written (.plain f)).content = Token.excerpt [']'] f.content := by
    show (plain f).contentTokens ']' = _
    rw [hcontent]
  have hname' : (written (.plain f)).name = f.name := by
    show AttributePath.name (AttributePath.split (written (.plain f)).content).1 = _
    rw [hwritten, (AttributePath.Alike.excerpt [']'] f.content).name]
    cases f <;> first | rfl | cases hdoc
  refine ⟨_, ofForm_plain (by rwa [hname']), ?_⟩
  show Text.strip (Token.renderAll (written (.plain f)).content) = _
  rw [hwritten, hquotable.render_excerpt, Text.strip_strip]
  cases f <;> first | rfl | cases hdoc

mutual

/-- What is written for an attribute is read as an attribute with the same content. -/
theorem Genuine.reread {s : Settings} (hdoc : s.directive ≠ "doc") : ∀ {a : Attribute},
    a.Genuine s → ∀ pointer : Text,
      ∃ a', ofForm s pointer a.written = .ok a' ∧ a'.content = a.content
  | .plain (.doc leading pos marker value), _, pointer => by
    refine ⟨_, ofForm_plain (by rw [name_written_doc]; exact hdoc.symm), ?_⟩
    show Text.strip (Token.renderAll (docTokens value)) = _
    rw [render_docTokens]
    exact strip_content (.plain (.doc leading pos marker value))
  | .plain (.marked hash bang bracket), h, pointer =>
    have hplain := (h.resolve_left (by simp [Form.isDoc])).1
    reread_excerpt rfl hplain.1 hplain.2 rfl pointer
  | .plain (.bare first rest), h, pointer =>
    have hplain := (h.resolve_left (by simp [Form.isDoc])).1
    reread_excerpt rfl hplain.1 hplain.2 rfl pointer
  | .directive form ⟨condition, separator, braced, attributes⟩, h, pointer => by
    obtain ⟨⟨hform, hname, hpath⟩, hcondition, hattributes⟩ := h
    obtain ⟨attributes', hok, hcontents⟩ := GenuineAll.reread hdoc hattributes pointer 0
    obtain ⟨b', hparse, htext, rfl⟩ := @Body.reread_of_entries s
      ⟨condition, separator, braced, attributes⟩ hcondition _ _ hok .nowhere
    -- the path and the arguments are found again
    have hsplit := AttributePath.split_excerpt ['('] form.content
      (rfl : (Token.enclosed .paren (Body.deferredArguments
        ⟨condition, separator, braced, attributes⟩)).isIdent = false)
    have hpath' : (written (.directive form ⟨condition, separator, braced, attributes⟩)).path =
        Token.excerpt ['('] form.path := congrArg Prod.fst hsplit
    have hname' : (written (.directive form ⟨condition, separator, braced, attributes⟩)).name =
        s.directive := by
      show AttributePath.name (written _).path = _
      rw [hpath', AttributePath.name_congr (AttributePath.Alike.excerpt ['('] form.path).ident?,
        ← hname]
      cases form <;> first | rfl | cases hform
    refine ⟨.directive _ b', ofForm_eq_ok_iff.2 (.inr ⟨⟨rfl, hname'⟩, _, b',
      congrArg Prod.snd hsplit, rfl, hparse, rfl⟩), ?_⟩
    have hpathText : (written (.directive form ⟨condition, separator, braced, attributes⟩)).pathText =
        form.pathText := by
      rw [Form.pathText, hpath', hpath.render_excerpt, Text.strip_strip, Form.pathText]
    rw [content_directive, content_directive, Body.deferred, Body.deferred, deferredText,
      deferredText, hpathText, htext, hcontents]

theorem GenuineAll.reread {s : Settings} (hdoc : s.directive ≠ "doc") :
    ∀ {attributes : List Attribute}, GenuineAll s attributes → ∀ (pointer : Text) (index : Nat),
      ∃ attributes', ofEntries s pointer index (attributes.map written) = .ok attributes' ∧
        contents attributes' = contents attributes
  | [], _, pointer, index => ⟨[], by rw [List.map_nil, ofEntries], rfl⟩
  | attr :: rest, h, pointer, index => by
    obtain ⟨attr', hattr, hcontent⟩ := Genuine.reread hdoc h.1 (Pointer.entry pointer "annotations" index)
    obtain ⟨rest', hrest, hcontents⟩ := GenuineAll.reread hdoc h.2 pointer (index + 1)
    refine ⟨attr' :: rest', ofEntries_cons_eq_ok_iff.2 ⟨attr', rest', ?_, hrest, rfl⟩, ?_⟩
    · exact ofEntry_eq_ok_iff.2 ⟨fun hbare => absurd hbare Bool.false_ne_true, rfl, hattr⟩
    · rw [contents, contents, hcontent, hcontents]

end

end Attribute

/-! ## Invocations -/

theorem Arguments.trailing_tail (contents : List Inset) :
    (tail (contents.map bracketedTokens)).trailing = [] := by
  induction contents with
  | nil => rfl
  | cons c rest ih =>
    cases rest with
    | nil => rfl
    | cons d rest => exact ih

theorem conditionalArguments_eq (condition : Text) (contents : List Text) :
    ∃ rest, conditionalArguments condition contents = condition ++ ',' :: rest := by
  cases contents with
  | nil => exact ⟨[], rfl⟩
  | cons c more =>
    refine ⟨' ' :: Text.join ", " (c :: more), ?_⟩
    simp [conditionalArguments, Text.join]

theorem invocationHead_of_parse {s : Settings} {arguments : Text} {stream : TokenStream}
    {b : Body Attribute} (htokenize : tokenize arguments = .ok stream)
    (hparse : Body.parse s argumentsPointer .nowhere stream.tokens = .ok b) :
    invocationHead s arguments = .ok (b.native s false ++ "\n") := by
  obtain ⟨condition, comma, rest, attributes, hsplit, -⟩ := Body.parse_eq_ok_iff.1 hparse
  simp only [invocationHead, htokenize, bind, Except.bind]
  split
  · rename_i htokens
    rw [htokens] at hsplit
    cases hsplit
  · rw [hparse]
    rfl

/-- An invocation without arguments has no head. -/
theorem invocationHead_nil (s : Settings) : invocationHead s [] = .ok [] := by
  have hruns : TokenStream.Runs ⟨[], []⟩ := ⟨trivial, Trivia.final_nil⟩
  have hshebang : Trivia.readShebang [] = .ok ([], TokenStream.render ⟨[], []⟩) :=
    Trivia.readShebang_of_ne (by simp)
  obtain ⟨stream, htokenize, -, hforget⟩ := tokenize_of_runs hshebang hruns
  have htokens : stream.tokens = [] := Token.forgetAll_eq_nil.1 hforget
  simp only [invocationHead, htokenize, bind, Except.bind, htokens]
  rfl

namespace Body

variable {s : Settings} {b : Body Attribute}

/-- The arguments of a deferred directive are a text of their own. -/
theorem Genuine.runs_deferred (h : b.Genuine s) :
    b.deferredArguments.Runs ∧ b.deferredArguments.render =
      conditionalArguments b.conditionText ((Attribute.contents b.attributes).map bracketed) := by
  obtain ⟨hcondition, hattributes⟩ := h
  obtain ⟨hfluent, htext⟩ := Attribute.GenuineAll.fluent hattributes
  have hbracketed := fluent_bracketedAll hfluent
  have hlast : ∀ c ∈ ((Attribute.contentTokensAll b.attributes).map bracketedTokens).getLast?,
      Runs (Token.signsAll (c ')')) [] := by
    intro c hc
    obtain ⟨c, hc', rfl⟩ := List.mem_map.1 (List.mem_of_getLast? hc)
    exact runs_bracketed (hfluent c hc') ')' []
  have hinside : b.deferredArguments.Inside [] :=
    Arguments.inside_stream hcondition.quotable hbracketed rfl hlast
  have htrailing : b.deferredArguments.trailing = [] := Arguments.trailing_tail _
  refine ⟨⟨?_, ?_⟩, ?_⟩
  · have hruns := hinside.1
    rwa [List.append_nil] at hruns
  · rw [htrailing]
    exact Trivia.final_nil
  · rw [deferredArguments, Arguments.render_stream hcondition.quotable hbracketed,
      text_bracketedAll hfluent, htext]
    rfl

/-- The arguments of a deferred directive become its native attribute. -/
theorem Genuine.invocationHead_deferred (h : b.Genuine s) (hdoc : s.directive ≠ "doc")
    (hmark : ¬ ['#', '!'] <+: b.conditionText) :
    invocationHead s
      (conditionalArguments b.conditionText ((Attribute.contents b.attributes).map bracketed)) =
      .ok (b.native s false ++ "\n") := by
  obtain ⟨hruns, hrender⟩ := h.runs_deferred
  -- the text has no interpreter line
  have hshebang : Trivia.readShebang b.deferredArguments.render =
      .ok ([], b.deferredArguments.render) := by
    refine Trivia.readShebang_of_ne fun more hmore => ?_
    obtain ⟨rest, hrest⟩ := conditionalArguments_eq b.conditionText
      ((Attribute.contents b.attributes).map bracketed)
    rw [hrender, hrest] at hmore
    rcases hc : b.conditionText with _ | ⟨x, _ | ⟨y, condition⟩⟩ <;> rw [hc] at hmore hmark
    · cases hmore
    · cases hmore
    · simp only [List.cons_append, List.cons.injEq] at hmore
      obtain ⟨rfl, rfl, -⟩ := hmore
      exact hmark ⟨condition, rfl⟩
  obtain ⟨stream, htokenize, -, hforget⟩ := tokenize_of_runs hshebang hruns
  rw [TokenStream.prepend_nil] at hforget
  -- so it is read as the directive it was written for
  obtain ⟨attributes, hok, hcontents⟩ := h.2.reread hdoc argumentsPointer 0
  obtain ⟨b', hparse, htext, rfl⟩ := reread_of_entries h.1 hok .nowhere
  obtain ⟨b'', hparse', htext', hcontents'⟩ :=
    @parse_forgetAll s argumentsPointer argumentsPointer .nowhere .nowhere _ _ _ hforget hparse
  have hnative : b''.native s false = b.native s false := by
    rw [native, native, htext', htext, hcontents', hcontents]
  rw [← hrender, invocationHead_of_parse htokenize hparse', hnative]

end Body

/-- The head of an expansion stands in front of what comes without it. -/
theorem expandItem_of_head {s : Settings} {item arguments head : Text}
    (hhead : invocationHead s arguments = .ok head) (hitem : (expandParts s item []).isOk = true) :
    (expandItem s item arguments).text = head ++ (expandItem s item []).text := by
  cases htokenize : tokenize item with
  | error d => simp [expandParts, invocationHead_nil, htokenize, bind, Except.bind, Except.isOk,
      Except.toBool] at hitem
  | ok stream =>
    simp [expandItem, expandParts, invocationHead_nil, hhead, htokenize, bind, Except.bind, pure,
      Except.pure]

/-! ## Nested directives -/

/-- The attributes in an attribute, at any depth. -/
inductive Attribute.Holds : Attribute → Attribute → Prop where
  | self (a : Attribute) : Holds a a
  | nested {form : Form} {body : Body Attribute} {a d : Attribute} (ha : a ∈ body.attributes)
      (h : Holds a d) : Holds (.directive form body) d

namespace Attribute

theorem exists_of_mem_ofEntries {s : Settings} {pointer : Text} {index : Nat} {forms : List Form}
    {attributes : List Attribute} (h : ofEntries s pointer index forms = .ok attributes)
    {a : Attribute} (ha : a ∈ attributes) :
    ∃ f ∈ forms, ∃ pointer', ofForm s pointer' f = .ok a := by
  induction forms generalizing index attributes with
  | nil =>
    rw [ofEntries] at h
    cases h
    cases ha
  | cons f forms ih =>
    obtain ⟨attr, more, hattr, hmore, rfl⟩ := ofEntries_cons_eq_ok_iff.1 h
    rcases List.mem_cons.1 ha with rfl | ha
    · exact ⟨f, by simp, _, (ofEntry_eq_ok_iff.1 hattr).2.2⟩
    · obtain ⟨g, hg, hok⟩ := ih hmore ha
      exact ⟨g, by simp [hg], hok⟩

/-- Every attribute in what is read from a placed form is read from a placed form. -/
theorem Holds.placed {s : Settings} {a d : Attribute} (h : a.Holds d) {pointer : Text} {f : Form}
    (hf : f.Placed) (hok : ofForm s pointer f = .ok a) :
    ∃ pointer' f', Form.Placed f' ∧ ofForm s pointer' f' = .ok d := by
  induction h generalizing pointer f with
  | self a => exact ⟨pointer, f, hf, hok⟩
  | nested ha _ ih =>
    rcases ofForm_eq_ok_iff.1 hok with ⟨-, heq⟩ |
      ⟨⟨hdoc, -⟩, group, body, harguments, hgroup, hparse, heq⟩
    · cases heq
    · cases heq
      obtain ⟨condition, comma, rest, attributes, hsplit, -, hentries, rfl⟩ :=
        Body.parse_eq_ok_iff.1 hparse
      obtain ⟨-, hchildren⟩ := hf.quotable_path hdoc harguments hgroup
      have hrest : Token.Placed rest := by
        rw [← Body.splitCondition_append hsplit, ← List.singleton_append, ← List.append_assoc] at hchildren
        exact hchildren.right
      obtain ⟨g, hg, pointer', hok'⟩ := exists_of_mem_ofEntries hentries ha
      exact ih (Form.entries_placed (Body.listTokens_placed hrest) g hg) hok'

end Attribute

/-- Expansion with the arguments of a deferred directive: in front of the expanded item
stands the native attribute that the directive itself would become, with the same condition
and the same contents; a directive nested in it is deferred with the same text. -/
theorem expandItem_deferred {s : Settings} (hdoc : s.directive ≠ "doc") {t : Text}
    {stream : TokenStream} (htokenize : tokenize t = .ok stream) {ts : List Token}
    (hts : Token.Within stream.tokens ts) {pointer : Text} {outer : Attribute}
    (hscan : .accepted outer ∈ (Attachment.scan s pointer ts).1) {form : Form}
    {body : Body Attribute} (hholds : outer.Holds (.directive form body))
    (hquiet : body.quiet = true) (hmark : ¬ ['#', '!'] <+: body.conditionText)
    {arguments : Text} (hdeferred : body.deferred form = form.pathText ++ "(" ++ arguments ++ ")")
    {item : Text} (hitem : (expandParts s item []).isOk = true) :
    let metas := body.attributes.map Attribute.content
    let written := if metas = [] then body.conditionText ++ ","
      else Text.join ", " (body.conditionText :: metas)
    (expandItem s item arguments).text =
        "#[" ++ s.native ++ "(" ++ written ++ ")]\n" ++ (expandItem s item []).text ∧
      Attachment.lower s (.accepted (.directive form body)) =
        form.leading ++ ((if form.isInner then "#![" else "#[") ++ s.native ++ "(" ++ written ++ ")]") ∧
      ∀ form' body', .directive form' body' ∈ body.attributes → body'.deferred form' ∈ metas := by
  intro metas written
  have hwritten : conditionalArguments body.conditionText (Attribute.contents body.attributes) =
      written := by
    rw [Attribute.contents_eq_map]
    show conditionalArguments body.conditionText metas = written
    unfold written
    cases metas with
    | nil => rfl
    | cons m more => rfl
  have hbody : body.Genuine s := by
    obtain ⟨hproper, pointer', hok⟩ := (Attachment.scan_scanned s pointer ts _ hscan).ofForm_eq
    have hsettled : Token.Settled outer.form.tokens :=
      Token.inherited_settled.scan hts (Token.settled_of_tokenize htokenize) hscan
    obtain ⟨pointer'', f, hf, hok'⟩ := hholds.placed (hproper.placed_of_settled hsettled) hok
    exact (Attribute.genuine_of_ofForm hf hok' hquiet).2
  have harguments : arguments =
      conditionalArguments body.conditionText ((Attribute.contents body.attributes).map bracketed) := by
    have heq := hdeferred
    simp only [Body.deferred, deferredText, List.append_cancel_right_eq, List.append_cancel_left_eq] at heq
    exact heq.symm
  refine ⟨?_, ?_, ?_⟩
  · rw [harguments, expandItem_of_head (hbody.invocationHead_deferred hdoc hmark) hitem, Body.native,
      hwritten]
    simp
  · rw [Attachment.lower, Body.native, hwritten]
  · intro form' body' hmem
    exact List.mem_map.2 ⟨_, hmem, Attribute.content_directive form' body'⟩

/-- Whether the attribute is a directive that passes a test. -/
def Attribute.isDirective (test : Form → Body Attribute → Bool) : Attribute → Bool
  | plain _ => false
  | directive form body => test form body

/-- The middle one of three directives, with a documentation comment and brackets. -/
theorem expandItem_deferred_middle :
    let t : Text :=
      "#[cfg_attrs(a, #[cfg_attrs(b, /** d */ #[c] #[cfg_attrs(e, f)])])] struct S;"
    let arguments : Text := "b, #[doc = \" d \"], #[c], #[cfg_attrs(e, #[f])]"
    ∃ stream outer form body, tokenize t = .ok stream ∧
      .accepted outer ∈ (Attachment.scan {} [] stream.tokens).1 ∧
      outer.Holds (.directive form body) ∧
      body.deferred form = "cfg_attrs(" ++ arguments ++ ")" ∧
      (expandItem {} "struct T;" arguments).text =
        "#[cfg_attr(b, doc = \" d \", c, cfg_attrs(e, #[f]))]\n" ++
          (expandItem {} "struct T;" []).text := by
  intro t arguments
  obtain ⟨stream, form, body, htokenize, hscan, htest⟩ :=
    @Attachment.exists_of_anyDirective {} t
      (fun _ body => body.attributes.any <| Attribute.isDirective fun form body =>
        body.quiet && form.pathText == ("cfg_attrs" : Text) &&
          body.conditionText == ("b" : Text) &&
          body.attributes.map Attribute.content ==
            (["doc = \" d \"", "c", "cfg_attrs(e, #[f])"] : List Text) &&
          body.deferred form == "cfg_attrs(" ++ arguments ++ ")") (by decide +kernel)
  obtain ⟨a, ha, htest⟩ := List.any_eq_true.1 htest
  cases a with
  | plain form' => cases htest
  | directive form' body' =>
    simp only [Attribute.isDirective, Bool.and_eq_true, beq_iff_eq] at htest
    obtain ⟨⟨⟨⟨hquiet, hpath⟩, hcondition⟩, hmetas⟩, hdeferred⟩ := htest
    have hmark : ¬ ['#', '!'] <+: body'.conditionText := by
      rw [hcondition]
      simp
    have htext := (expandItem_deferred (by decide) htokenize .whole hscan
      (.nested ha (.self (.directive form' body'))) hquiet hmark (by rw [hpath]; exact hdeferred)
      (by decide +kernel : (expandParts {} "struct T;" []).isOk = true)).1
    refine ⟨stream, _, form', body', htokenize, hscan, .nested ha (.self _), hdeferred, ?_⟩
    rw [htext, hmetas, hcondition]
    rfl

end CondAttrs
