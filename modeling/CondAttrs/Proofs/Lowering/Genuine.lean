import CondAttrs.Proofs.Lowering.Replacement
import CondAttrs.Proofs.Reading.Accept

/-!
# Attributes that come from a source text

What is read from the tokens of a text is genuine: its parts run in the text, so that they
can be quoted. The one thing that the text has to promise is that no part ends with a line
of documentation. An attribute is *quiet* if none of its parts does.

Reading is by recursion on the tokens inside the arguments of a directive, so the statement
about genuine attributes is by induction on the number of tokens.

## Main definitions

* `Attribute.quiet`, `Body.quiet`: no part ends with a line of documentation.
* `Token.Placed`, `Form.Placed`: the tokens run somewhere.

## Main statements

* `Attribute.genuine_of_ofForm`: what is read is genuine.
* `Token.settled_of_tokenize`: the tokens of a text run, behind the first trivia.
-/

namespace CondAttrs

/-! ## Quiet attributes -/

mutual

/-- Whether no condition and no content of brackets in the attribute ends with a line of
documentation. -/
def Attribute.quiet : Attribute → Bool
  | .plain (.marked _ _ bracket) => !Token.endsDocLine bracket.children
  | .plain _ => true
  | .directive _ ⟨condition, _, _, attributes⟩ =>
    !Token.endsDocLine condition && Attribute.quietAll attributes

/-- Whether all attributes of a list are quiet. -/
def Attribute.quietAll : List Attribute → Bool
  | [] => true
  | attr :: rest => attr.quiet && Attribute.quietAll rest

end

/-- Whether no condition and no content of brackets among the arguments ends with a line
of documentation. -/
def Body.quiet (b : Body Attribute) : Bool :=
  !Token.endsDocLine b.condition && Attribute.quietAll b.attributes

/-! ## Tokens in their places -/

namespace Token

/-- The tokens run in front of some text that does not start with a quote. -/
def Placed (ts : List Token) : Prop :=
  ∃ rest, Runs (signsAll ts) rest ∧ rest.head? ≠ some '\''

theorem Placed.right {first second : List Token} (h : Placed (first ++ second)) :
    Placed second := by
  obtain ⟨rest, hruns, hquote⟩ := h
  rw [signsAll_append, runs_append] at hruns
  exact ⟨rest, hruns.2, hquote⟩

/-- In front of a token that does not start with a quote. -/
theorem Placed.left {first second : List Token} {t : Token} (h : Placed (first ++ t :: second))
    (ht : t.opener.text.head? ≠ some '\'') : Placed first := by
  obtain ⟨rest, hruns, -⟩ := h
  rw [signsAll_append, runs_append, signsAll, signs_eq_cons t, List.cons_append] at hruns
  exact ⟨_, hruns.1, hruns.2.head_ne_quote ht⟩

theorem placed_children {closeLeading rest : Text} {d : Delimiter} {children : List Token}
    (h : Runs (signsAll children ++ [⟨closeLeading, .closing d⟩]) rest) : Placed children := by
  rw [runs_append] at h
  refine ⟨_, h.1, h.2.head_ne_quote ?_⟩
  cases d <;> simp [Glyph.text, Delimiter.closing]

theorem Placed.children {first second : List Token} {t : Token}
    (h : Placed (first ++ t :: second)) : Placed t.children := by
  obtain ⟨rest, hruns, -⟩ := h
  cases t with
  | atom => exact ⟨[], trivial, by simp⟩
  | group leading pos d children closeLeading =>
    rw [signsAll_append, runs_append, signsAll, signs, List.cons_append, runs_cons_iff, Behind,
      runs_append] at hruns
    exact placed_children hruns.2.2.2.1

theorem Placed.children_cons {second : List Token} {t : Token} (h : Placed (t :: second)) :
    Placed t.children := by
  rw [← List.nil_append (t :: second)] at h
  exact h.children

end Token

namespace Form

/-- The content of the form runs somewhere; a bare form has no documentation and no
comma. -/
def Placed (f : Form) : Prop :=
  f.isDoc = true ∨
    Token.Placed f.content ∧
      (f.isBare = true → ∀ t ∈ f.content, t.isDoc = false ∧ t.isPunct ',' = false)

theorem opener_of_endsBare {t : Token} (h : endsBare t = true) :
    t.opener.text.head? ≠ some '\'' := by
  simp only [endsBare, Bool.or_eq_true] at h
  rcases h with (h | h) | h
  · obtain ⟨_, _, _, rfl⟩ := Token.isPunct_iff.1 h
    simp [Token.opener, Glyph.text, Atom.text]
  · obtain ⟨_, _, _, rfl⟩ := Token.isPunct_iff.1 h
    simp [Token.opener, Glyph.text, Atom.text]
  · cases t with
    | group => cases h
    | atom leading pos a =>
      cases a with
      | doc marker value => cases marker <;> simp [Token.opener, Glyph.text, Atom.text,
          DocMarker.opening]
      | ident => cases h
      | lifetime => cases h
      | literal => cases h
      | punct => cases h

theorem isDocLine_of_isDoc {t : Token} (h : t.isDoc = false) : t.isDocLine = false := by
  cases t with
  | group => rfl
  | atom leading pos a => cases a <;> first | rfl | cases h

theorem isDoc_of_read_none {t : Token} {rest : List Token} (h : read (t :: rest) = none) :
    t.isDoc = false := by
  cases t with
  | group => rfl
  | atom leading pos a => cases a <;> first | rfl | (simp [read] at h)

/-- A bare form has no documentation and no comma. -/
theorem bare_spec {first : Token} {rest : List Token} (hcomma : ¬ first.isPunct ',' = true)
    (h : read (first :: rest) = none) :
    ∀ t ∈ first :: rest.takeWhile (!endsBare ·), t.isDoc = false ∧ t.isPunct ',' = false := by
  intro t ht
  rcases List.mem_cons.1 ht with rfl | ht
  · exact ⟨isDoc_of_read_none h, by simpa using hcomma⟩
  · have hends : (!endsBare t) = true := List.all_eq_true.1 List.all_takeWhile t ht
    simp only [endsBare, Bool.not_eq_true', Bool.or_eq_false_iff] at hends
    exact ⟨hends.2, hends.1.1⟩

/-- Tokens without documentation do not end with a line of it. -/
theorem endsDocLine_of_isDoc {ts : List Token} (h : ∀ t ∈ ts, t.isDoc = false) :
    Token.endsDocLine ts = false := by
  rw [Token.endsDocLine]
  cases hl : ts.getLast? with
  | none => rfl
  | some t => exact isDocLine_of_isDoc (h t (List.mem_of_getLast? hl))

/-- The brackets of an attribute among placed tokens are placed. -/
theorem Proper.placed {f : Form} (h : f.Proper) {rest : List Token}
    (hp : Token.Placed (f.tokens ++ rest)) : f.Placed := by
  cases f with
  | doc => exact .inl rfl
  | bare => exact absurd h (by simp [Proper, isDoc, IsAttribute])
  | marked hash bang bracket =>
    refine .inr ⟨?_, by simp [isBare]⟩
    rw [tokens, List.cons_append, List.append_assoc, List.singleton_append,
      ← List.cons_append] at hp
    exact hp.children

/-- The entries of a directive are placed. -/
theorem entries_placed {tokens : List Token} (h : Token.Placed tokens) :
    ∀ f ∈ entries tokens, f.Placed := by
  fun_induction entries tokens with
  | case1 => simp
  | case2 first rest _ ih =>
    rw [← List.singleton_append] at h
    exact ih h.right
  | case3 first rest _ f after hread ih =>
    rw [← read_append hread] at h
    exact List.forall_mem_cons.2 ⟨(proper_of_read hread).placed h, ih h.right⟩
  | case4 first rest hcomma hread ih =>
    rw [← List.takeWhile_append_dropWhile (p := fun t => !endsBare t) (l := rest),
      ← List.cons_append] at h
    refine List.forall_mem_cons.2 ⟨.inr ⟨?_, fun _ => bare_spec hcomma hread⟩, ih h.right⟩
    cases hdrop : rest.dropWhile (!endsBare ·) with
    | nil =>
      rw [hdrop, List.append_nil] at h
      exact h
    | cons t more =>
      rw [hdrop] at h
      have ht : endsBare t = true := by
        have := List.head?_dropWhile_not (fun t => !endsBare t) rest
        rw [hdrop] at this
        simpa using this
      exact h.left (opener_of_endsBare ht)

end Form

namespace Body

theorem splitCondition_spec {tokens condition rest : List Token} {comma : Token}
    (h : splitCondition tokens = some (condition, comma, rest)) :
    (∀ t ∈ condition, t.isPunct ',' = false) ∧ comma.isPunct ',' = true := by
  induction tokens generalizing condition with
  | nil => cases h
  | cons t tokens ih =>
    simp only [splitCondition] at h
    split at h
    · rename_i ht
      cases h
      exact ⟨by simp, ht⟩
    · rename_i ht
      simp only [Option.map_eq_some_iff, Prod.mk.injEq, Prod.exists] at h
      obtain ⟨c, m, a, hs, rfl, rfl, rfl⟩ := h
      obtain ⟨hc, hm⟩ := ih hs
      exact ⟨List.forall_mem_cons.2 ⟨by simpa using ht, hc⟩, hm⟩

theorem listTokens_placed {rest : List Token} (h : Token.Placed rest) :
    Token.Placed (listTokens rest) := by
  unfold listTokens braceContent
  split
  · rename_i group
    split
    · exact h.children_cons
    · exact h
  · rename_i group comma
    split
    · exact h.children_cons
    · exact h
  · exact h

end Body

/-! ## What is read is genuine -/

/-- The tokens of a path are identifiers and colons. -/
theorem AttributePath.mem_split {tokens : List Token} {t : Token} (h : t ∈ (split tokens).1) :
    t.isIdent = true ∨ t.isPunct ':' = true := by
  have hcolon : ∀ {t : Token}, t.isJoint ':' = true → t.isPunct ':' = true := by
    intro t ht
    obtain ⟨leading, pos, rfl⟩ := Token.isJoint_iff.1 ht
    rfl
  have hsegments : ∀ {tokens : List Token} {t : Token}, t ∈ (spanSegments tokens).1 →
      t.isIdent = true ∨ t.isPunct ':' = true := by
    intro tokens t h
    fun_induction spanSegments tokens with
    | case1 first second segment rest hsep ih =>
      simp only [isSeparator, Bool.and_eq_true] at hsep
      obtain ⟨⟨hfirst, hsecond⟩, hsegment⟩ := hsep
      simp only [List.mem_cons] at h
      rcases h with rfl | rfl | rfl | h
      · exact .inr (hcolon hfirst)
      · exact .inr hsecond
      · exact .inl hsegment
      · exact ih h
    | case2 => cases h
    | case3 => cases h
  cases tokens with
  | nil => cases h
  | cons head rest =>
    simp only [split] at h
    split at h
    · rename_i hhead
      rcases List.mem_cons.1 h with rfl | h
      · exact .inl hhead
      · exact hsegments h
    · exact hsegments h

/-- A path has no documentation and no comma. -/
theorem Form.path_spec {f : Form} : ∀ t ∈ f.path, t.isDoc = false ∧ t.isPunct ',' = false := by
  intro t ht
  rcases AttributePath.mem_split ht with h | h
  · cases t with
    | group => cases h
    | atom leading pos a =>
      cases a with
      | ident => exact ⟨rfl, rfl⟩
      | _ => cases h
  · obtain ⟨_, _, _, rfl⟩ := Token.isPunct_iff.1 h
    exact ⟨rfl, rfl⟩

/-- The path of a placed directive can be quoted. -/
theorem Form.Placed.quotable_path {f : Form} (h : f.Placed) (hdoc : f.isDoc = false)
    {group : Token} (harguments : f.arguments = [group]) (hgroup : group.isGroup .paren = true) :
    Token.Quotable f.path ∧ Token.Placed group.children := by
  obtain ⟨hplaced, -⟩ := h.resolve_left (by simp [hdoc])
  have hsplit : f.path ++ [group] = f.content := by
    rw [← harguments]
    exact AttributePath.split_append f.content
  rw [← hsplit] at hplaced
  refine ⟨⟨hplaced.left ?_, ?_⟩, hplaced.children⟩
  · obtain ⟨_, _, _, _, rfl⟩ := Token.isGroup_iff.1 hgroup
    simp [Token.opener, Glyph.text, Delimiter.opening]
  · exact Form.endsDocLine_of_isDoc fun t ht => (Form.path_spec t ht).1

namespace Attribute

/-- What reading makes of placed and quiet forms is genuine, if it is so for each. -/
theorem genuineAll_of_ofEntries {s : Settings} {pointer : Text} {index : Nat} {forms : List Form}
    {attributes : List Attribute}
    (hforms : ∀ f ∈ forms, ∀ {pointer a}, ofForm s pointer f = .ok a → a.quiet = true →
      a.Genuine s)
    (h : ofEntries s pointer index forms = .ok attributes) (hquiet : quietAll attributes = true) :
    GenuineAll s attributes := by
  induction forms generalizing index attributes with
  | nil =>
    rw [ofEntries] at h
    cases h
    trivial
  | cons f forms ih =>
    obtain ⟨attr, more, hattr, hmore, rfl⟩ := ofEntries_cons_eq_ok_iff.1 h
    simp only [quietAll, Bool.and_eq_true] at hquiet
    obtain ⟨hf, hrest⟩ := List.forall_mem_cons.1 hforms
    exact ⟨hf (ofEntry_eq_ok_iff.1 hattr).2.2 hquiet.1, ih hrest hmore hquiet.2⟩

end Attribute

theorem Body.genuine_of_entries {s : Settings} {pointer : Text} {anchor : Position}
    {tokens : List Token} {b : Body Attribute} (hplaced : Token.Placed tokens)
    (hforms : ∀ f : Form, f.size < Token.sizeAll tokens → f.Placed →
      ∀ {pointer a}, Attribute.ofForm s pointer f = .ok a → a.quiet = true → a.Genuine s)
    (h : Body.parse s pointer anchor tokens = .ok b) (hquiet : b.quiet = true) : b.Genuine s := by
  obtain ⟨condition, comma, rest, attributes, hsplit, hne, hentries, rfl⟩ := parse_eq_ok_iff.1 h
  simp only [quiet, Bool.and_eq_true, Bool.not_eq_true'] at hquiet
  have happend := splitCondition_append hsplit
  obtain ⟨hcondition, hcomma⟩ := splitCondition_spec hsplit
  rw [← happend] at hplaced
  have hopener : comma.opener.text.head? ≠ some '\'' :=
    Form.opener_of_endsBare (by simp [Form.endsBare, hcomma])
  refine ⟨⟨⟨hplaced.left hopener, hquiet.1⟩, hne, hcondition⟩, ?_⟩
  have hrest : Token.Placed rest := by
    rw [← List.singleton_append, ← List.append_assoc] at hplaced
    exact hplaced.right
  exact Attribute.genuineAll_of_ofEntries
    (fun f hf => hforms f (size_lt_of_mem_entries hsplit hf) (Form.entries_placed (listTokens_placed hrest) f hf))
    hentries hquiet.2

/-- What is read from a placed form is genuine if it is quiet. -/
theorem Attribute.genuine_of_ofForm {s : Settings} {f : Form} (hplaced : f.Placed)
    {pointer : Text} {a : Attribute} (h : Attribute.ofForm s pointer f = .ok a)
    (hquiet : a.quiet = true) : a.Genuine s := by
  induction hn : f.size using Nat.strongRecOn generalizing f pointer a with
  | ind n ih =>
    rcases Attribute.ofForm_eq_ok_iff.1 h with ⟨hplain, rfl⟩ |
      ⟨⟨hdoc, hname⟩, group, body, harguments, hgroup, hparse, rfl⟩
    · rcases hplain with hdoc | hname
      · exact .inl hdoc
      · by_cases hdoc : f.isDoc = true
        · exact .inl hdoc
        · obtain ⟨hcontent, hbare⟩ := hplaced.resolve_left hdoc
          refine .inr ⟨⟨hname, hcontent, ?_⟩, fun hb t ht => (hbare hb t ht).2⟩
          cases f with
          | doc => exact absurd rfl hdoc
          | marked hash bang bracket => simpa [quiet, Form.content] using hquiet
          | bare first rest => exact Form.endsDocLine_of_isDoc fun t ht => (hbare rfl t ht).1
    · obtain ⟨hpath, hchildren⟩ := hplaced.quotable_path hdoc harguments hgroup
      have hsize := Form.sizeAll_children_lt_size harguments
      have hbody : body.Genuine s := Body.genuine_of_entries hchildren
        (fun g hg hgp _ _ hok hq => ih g.size (by omega) hgp hok hq rfl) hparse hquiet
      exact ⟨⟨hdoc, hname, hpath⟩, hbody⟩

/-! ## The tokens of a text -/

namespace Token

/-- The tokens run in front of some text, behind the trivia of the first one. -/
def Settled (ts : List Token) : Prop :=
  ∃ rest, Behind (signsAll ts) rest

theorem inherited_settled : Inherited Settled where
  left {first second} h := by
    obtain ⟨rest, h⟩ := h
    refine ⟨Sign.textAll (signsAll second) ++ rest, ?_⟩
    rw [signsAll_append] at h
    cases hf : signsAll first with
    | nil => trivial
    | cons s more =>
      rw [hf, List.cons_append, Behind, runs_append, Sign.textAll_append, List.append_assoc] at h
      exact ⟨h.1, h.2.1⟩
  right {first second} h := by
    obtain ⟨rest, h⟩ := h
    refine ⟨rest, ?_⟩
    rw [signsAll_append] at h
    cases hf : signsAll first with
    | nil => rwa [hf] at h
    | cons s more =>
      rw [hf, List.cons_append, Behind, runs_append] at h
      exact h.2.2.behind
  inside h := by
    obtain ⟨rest, h⟩ := h
    rw [signsAll_singleton, signs, Behind, runs_append] at h
    exact ⟨_, h.2.1.behind⟩

/-- The tokens of a text run, behind the first trivia. -/
theorem settled_of_tokenize {t : Text} {stream : TokenStream} (h : tokenize t = .ok stream) :
    Settled stream.tokens := by
  obtain ⟨line, ⟨_ | ⟨first, rest⟩, trailing⟩, -, hruns, rfl⟩ := tokenize_runs h
  · exact ⟨[], trivial⟩
  · refine ⟨trailing, ?_⟩
    have hbehind := hruns.1.behind
    simp only [signsAll] at hbehind
    rw [signs_eq_cons] at hbehind
    simp only [TokenStream.prepend, signsAll]
    rw [signs_withLeading]
    exact hbehind

end Token

/-- A proper form among settled tokens is placed. -/
theorem Form.Proper.placed_of_settled {f : Form} (h : f.Proper) (hs : Token.Settled f.tokens) :
    f.Placed := by
  cases f with
  | doc => exact .inl rfl
  | bare => exact absurd h (by simp [Proper, isDoc, IsAttribute])
  | marked hash bang bracket =>
    refine .inr ⟨?_, by simp [isBare]⟩
    have hbracket : bracket.isGroup .bracket = true :=
      (h.resolve_left (by simp [isDoc])).2.2
    obtain ⟨leading, pos, children, closeLeading, rfl⟩ := Token.isGroup_iff.1 hbracket
    rw [tokens, ← List.cons_append] at hs
    obtain ⟨rest, hrest⟩ := Token.inherited_settled.right hs
    rw [Token.signsAll_singleton, Token.signs, Behind] at hrest
    exact Token.placed_children hrest.2

end CondAttrs
