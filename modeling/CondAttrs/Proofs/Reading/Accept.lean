import CondAttrs.Attribute.Lower
import CondAttrs.Proofs.Reading.Fill

/-!
# Accepted annotations

The functions that read directives are mutually recursive and may fail at many places. Here
they are inverted, one statement for each: what a function accepts, and what it makes of
it.

Positions are kept for messages only. Reading annotations from tokens without positions
gives the annotations without positions; every function on the way commutes with
`Token.forgetAll`. Reading the arguments of a directive may fail with a message that holds
a position, so there the statement is about success: what is accepted is accepted wherever
it stands, and lowered to the same texts.

## Main definitions

* `Form.forget`: a form without positions.

## Main statements

* `Body.parse_eq_ok_iff`, `Attribute.ofForm_eq_ok_iff` and the like: what is accepted.
* `Form.read_forgetAll`, `Form.entries_forgetAll`: forms are read alike.
* `Form.exists_of_forgetAll`: tokens that make up a form up to positions are a form.
* `Attribute.ofForm_forget`, `Body.parse_forgetAll`: directives are accepted alike.
-/

namespace CondAttrs

namespace Token

@[simp] theorem face_forget (t : Token) : t.forget.face = t.face := by
  cases t <;> rfl

theorem face_of_forget {t t' : Token} (h : t.forget = t'.forget) : t.face = t'.face := by
  rw [← face_forget t, h, face_forget]

@[simp] theorem ident?_forget (t : Token) : t.forget.ident? = t.ident? :=
  ident?_face (face_forget t)

@[simp] theorem isIdent_forget (t : Token) : t.forget.isIdent = t.isIdent :=
  isIdent_face (face_forget t)

@[simp] theorem isPunct_forget (c : Char) (t : Token) : t.forget.isPunct c = t.isPunct c :=
  isPunct_face c (face_forget t)

@[simp] theorem isJoint_forget (c : Char) (t : Token) : t.forget.isJoint c = t.isJoint c :=
  isJoint_face c (face_forget t)

@[simp] theorem isGroup_forget (d : Delimiter) (t : Token) : t.forget.isGroup d = t.isGroup d :=
  isGroup_face d (face_forget t)

@[simp] theorem isDoc_forget (t : Token) : t.forget.isDoc = t.isDoc :=
  isDoc_face (face_forget t)

@[simp] theorem children_forget (t : Token) : t.forget.children = forgetAll t.children := by
  cases t <;> rfl

@[simp] theorem leading_forget (t : Token) : t.forget.leading = t.leading := by
  cases t <;> rfl

@[simp] theorem forgetAll_nil : forgetAll [] = [] := rfl

@[simp] theorem forgetAll_cons (t : Token) (rest : List Token) :
    forgetAll (t :: rest) = t.forget :: forgetAll rest := rfl

@[simp] theorem forgetAll_eq_nil {ts : List Token} : forgetAll ts = [] ↔ ts = [] := by
  simp [forgetAll_eq_map]

theorem renderAll_of_forgetAll {ts ts' : List Token} (h : forgetAll ts = forgetAll ts') :
    renderAll ts = renderAll ts' := by
  rw [← renderAll_forgetAll ts, h, renderAll_forgetAll]

end Token

/-! ## Paths -/

namespace AttributePath

theorem spanSegments_forgetAll (tokens : List Token) :
    spanSegments (Token.forgetAll tokens) =
      (Token.forgetAll (spanSegments tokens).1, Token.forgetAll (spanSegments tokens).2) := by
  fun_induction spanSegments tokens with
  | case1 first second segment rest h ih =>
    have h' : (isSeparator first.forget second.forget && segment.forget.isIdent) = true := by
      simpa [isSeparator] using h
    simp only [Token.forgetAll_cons, spanSegments, h', ↓reduceIte, ih]
  | case2 first second segment rest h =>
    have h' : ¬ (isSeparator first.forget second.forget && segment.forget.isIdent) = true := by
      simpa [isSeparator] using h
    simp only [Token.forgetAll_cons, spanSegments, h']
    rfl
  | case3 tokens h =>
    rcases tokens with _ | ⟨first, _ | ⟨second, _ | ⟨segment, rest⟩⟩⟩
    · rfl
    · rfl
    · rfl
    · exact absurd rfl (h first second segment rest)

theorem split_forgetAll (tokens : List Token) :
    split (Token.forgetAll tokens) =
      (Token.forgetAll (split tokens).1, Token.forgetAll (split tokens).2) := by
  cases tokens with
  | nil => rfl
  | cons head rest =>
    have hsegments := spanSegments_forgetAll (head :: rest)
    rw [Token.forgetAll_cons] at hsegments ⊢
    simp only [split, Token.isIdent_forget, hsegments, spanSegments_forgetAll rest]
    split <;> rfl

theorem name_forgetAll (path : List Token) : name (Token.forgetAll path) = name path := by
  rw [name, name, Token.forgetAll_eq_map, List.filterMap_map]
  congr 3
  funext t
  exact Token.ident?_forget t

end AttributePath

/-! ## Forms -/

namespace Form

/-- The form with all positions erased. -/
def forget : Form → Form
  | doc leading _ marker value => doc leading .nowhere marker value
  | marked hash bang bracket => marked hash.forget (bang.map Token.forget) bracket.forget
  | bare first rest => bare first.forget (Token.forgetAll rest)

variable (f : Form)

@[simp] theorem tokens_forget : f.forget.tokens = Token.forgetAll f.tokens := by
  rcases f with _ | ⟨hash, _ | bang, bracket⟩ | _ <;> rfl

@[simp] theorem content_forget : f.forget.content = Token.forgetAll f.content := by
  cases f with
  | doc => rfl
  | marked hash bang bracket => exact Token.children_forget bracket
  | bare => rfl

@[simp] theorem isDoc_forget : f.forget.isDoc = f.isDoc := by
  cases f <;> rfl

@[simp] theorem isBare_forget : f.forget.isBare = f.isBare := by
  cases f <;> rfl

@[simp] theorem isInner_forget : f.forget.isInner = f.isInner := by
  cases f with
  | marked hash bang bracket => exact Option.isSome_map
  | _ => rfl

@[simp] theorem leading_forget : f.forget.leading = f.leading := by
  cases f with
  | doc => rfl
  | marked hash bang bracket => exact Token.leading_forget hash
  | bare first rest => exact Token.leading_forget first

@[simp] theorem path_forget : f.forget.path = Token.forgetAll f.path := by
  rw [path, content_forget, AttributePath.split_forgetAll, path]

@[simp] theorem arguments_forget : f.forget.arguments = Token.forgetAll f.arguments := by
  rw [arguments, content_forget, AttributePath.split_forgetAll, arguments]

@[simp] theorem name_forget : f.forget.name = f.name := by
  have hname : ∀ g : Form, g.isDoc = false → g.name = AttributePath.name g.path := by
    intro g hg
    cases g <;> first | rfl | cases hg
  cases hdoc : f.isDoc with
  | false => rw [hname f hdoc, hname f.forget (by simpa using hdoc), path_forget,
      AttributePath.name_forgetAll]
  | true => cases f <;> first | rfl | cases hdoc

@[simp] theorem contentText_forget : f.forget.contentText = f.contentText := by
  cases f with
  | doc => rfl
  | marked hash bang bracket =>
    show Text.strip (Token.renderAll bracket.forget.children) = _
    rw [Token.children_forget, Token.renderAll_forgetAll]
    rfl
  | bare first rest =>
    show Text.strip (Token.renderAll (Token.forgetAll (first :: rest))) = _
    rw [Token.renderAll_forgetAll]
    rfl

variable {f}

/-- What is read behind the two marks of an inner attribute. -/
def readInner (hash bang : Token) : List Token → Option (Form × List Token)
  | third :: rest =>
    if third.isGroup .bracket then some (.marked hash (some bang) third, rest) else none
  | [] => none

/-- A form is read off tokens without positions. -/
theorem read_forgetAll (tokens : List Token) :
    read (Token.forgetAll tokens) =
      (read tokens).map fun r => (r.1.forget, Token.forgetAll r.2) := by
  have hmarks : ∀ hash second rest, Token.isDoc hash = false →
      read (hash :: second :: rest) =
        if !hash.isPunct '#' then none
        else if second.isGroup .bracket then some (.marked hash none second, rest)
        else if !second.isPunct '!' then none
        else readInner hash second rest := by
    intro hash second rest hdoc
    cases hash with
    | group => rfl
    | atom leading pos a => cases a <;> first | rfl | cases hdoc
  have hsingle : ∀ t : Token, t.isDoc = false → read [t] = none := by
    intro t hdoc
    cases t with
    | group => rfl
    | atom leading pos a => cases a <;> first | rfl | cases hdoc
  rcases tokens with _ | ⟨hash, more⟩
  · rfl
  cases hdoc : hash.isDoc with
  | true =>
    cases hash with
    | group => cases hdoc
    | atom leading pos a => cases a <;> first | rfl | cases hdoc
  | false =>
    have hdoc' : hash.forget.isDoc = false := by simpa using hdoc
    rcases more with _ | ⟨second, rest⟩
    · rw [Token.forgetAll_cons, Token.forgetAll_nil, hsingle _ hdoc, hsingle _ hdoc']
      rfl
    · rw [Token.forgetAll_cons, Token.forgetAll_cons, hmarks _ _ _ hdoc, hmarks _ _ _ hdoc',
        Token.isPunct_forget, Token.isPunct_forget, Token.isGroup_forget]
      split
      · rfl
      split
      · rfl
      split
      · rfl
      cases rest with
      | nil => rfl
      | cons third rest =>
        simp only [Token.forgetAll_cons, readInner, Token.isGroup_forget]
        split <;> rfl

/-- Tokens that make up a proper form up to positions are such a form. -/
theorem exists_of_forgetAll (h : f.Proper) {tokens : List Token}
    (ht : Token.forgetAll tokens = Token.forgetAll f.tokens) :
    ∃ g : Form, g.Proper ∧ g.tokens = tokens ∧ g.forget = f.forget := by
  have hread := read_forgetAll tokens
  have hf := read_forgetAll f.tokens
  rw [← List.append_nil f.tokens, h.read [], List.append_nil] at hf
  rw [ht, hf] at hread
  obtain ⟨⟨g, rest⟩, hg, heq⟩ := Option.map_eq_some_iff.1 hread.symm
  simp only [Token.forgetAll_nil, Prod.mk.injEq, Token.forgetAll_eq_nil] at heq
  obtain ⟨hforget, rfl⟩ := heq
  refine ⟨g, proper_of_read hg, ?_, hforget⟩
  have := read_append hg
  rwa [List.append_nil] at this

theorem endsBare_forget (t : Token) : endsBare t.forget = endsBare t := by
  simp [endsBare]

/-- The entries are read off tokens without positions. -/
theorem entries_forgetAll (tokens : List Token) :
    entries (Token.forgetAll tokens) = (entries tokens).map forget := by
  fun_induction entries tokens with
  | case1 => rw [Token.forgetAll_nil, entries, List.map_nil]
  | case2 first rest hcomma ih =>
    rw [Token.forgetAll_cons, entries, Token.isPunct_forget, if_pos hcomma, ih]
  | case3 first rest hcomma f after hread ih =>
    have hread' := read_forgetAll (first :: rest)
    rw [hread, Option.map_some, Token.forgetAll_cons] at hread'
    rw [Token.forgetAll_cons, entries, Token.isPunct_forget, if_neg hcomma]
    split
    · rename_i g after' h
      rw [hread'] at h
      cases h
      rw [ih, List.map_cons]
    · rename_i h
      rw [hread'] at h
      cases h
  | case4 first rest hcomma hread ih =>
    have hread' := read_forgetAll (first :: rest)
    rw [hread, Option.map_none, Token.forgetAll_cons] at hread'
    have hends : (fun t : Token => !endsBare t) ∘ Token.forget = fun t => !endsBare t := by
      funext t
      simp [endsBare_forget]
    rw [Token.forgetAll_cons, entries, Token.isPunct_forget, if_neg hcomma]
    split
    · rename_i g after' h
      rw [hread'] at h
      cases h
    · rw [List.map_cons, ← ih]
      simp only [forget, Token.forgetAll_eq_map, List.takeWhile_map, List.dropWhile_map, hends]

theorem size_le_sizeAll {f : Form} {forms : List Form} (h : f ∈ forms) :
    f.size ≤ sizeAll forms := by
  induction forms with
  | nil => cases h
  | cons g forms ih =>
    rw [sizeAll]
    rcases List.mem_cons.1 h with rfl | h
    · omega
    · have := ih h
      omega

/-- What is inside the only argument of a directive is smaller than the directive. -/
theorem sizeAll_children_lt_size {f : Form} {group : Token} (h : f.arguments = [group]) :
    Token.sizeAll group.children < f.size := by
  have harguments := f.sizeAll_arguments_le
  have hchildren := group.sizeAll_children_lt
  rw [h] at harguments
  simp only [Token.sizeAll] at harguments
  omega

end Form

/-- The entries of a directive are smaller than its arguments. -/
theorem Body.size_lt_of_mem_entries {tokens condition rest : List Token} {comma : Token}
    (hsplit : Body.splitCondition tokens = some (condition, comma, rest)) {f : Form}
    (hf : f ∈ Form.entries (Body.listTokens rest)) : f.size < Token.sizeAll tokens := by
  have h₁ := Form.size_le_sizeAll hf
  have h₂ := Form.sizeAll_entries_le (Body.listTokens rest)
  have h₃ := Body.sizeAll_listTokens_le rest
  have h₄ := comma.size_pos
  rw [← Body.splitCondition_append hsplit, Token.sizeAll_append, Token.sizeAll]
  omega

/-! ## What reading accepts -/

theorem Body.parse_eq_ok_iff {s : Settings} {pointer : Text} {anchor : Position}
    {tokens : List Token} {b : Body Attribute} :
    Body.parse s pointer anchor tokens = .ok b ↔
      ∃ condition comma rest attributes,
        Body.splitCondition tokens = some (condition, comma, rest) ∧ condition ≠ [] ∧
        Attribute.ofEntries s pointer 0 (Form.entries (Body.listTokens rest)) = .ok attributes ∧
        b = ⟨condition, comma.pos, (Body.braceContent rest).isSome, attributes⟩ := by
  rw [Body.parse]
  split
  · rename_i hsplit
    simp [hsplit]
  · rename_i hsplit
    simp [hsplit]
  · rename_i condition comma rest hne hsplit
    have hcondition : condition ≠ [] := hne
    split
    · rename_i d hentries
      constructor
      · intro h; cases h
      · rintro ⟨_, _, _, _, hs, -, he, -⟩
        rw [hsplit] at hs
        cases hs
        rw [hentries] at he
        cases he
    · rename_i attributes hentries
      constructor
      · intro h
        cases h
        exact ⟨condition, comma, rest, attributes, hsplit, hcondition, hentries, rfl⟩
      · rintro ⟨_, _, _, _, hs, -, he, rfl⟩
        rw [hsplit] at hs
        cases hs
        rw [hentries] at he
        cases he
        rfl

theorem Attribute.ofEntries_cons_eq_ok_iff {s : Settings} {pointer : Text} {index : Nat}
    {f : Form} {rest : List Form} {attributes : List Attribute} :
    Attribute.ofEntries s pointer index (f :: rest) = .ok attributes ↔
      ∃ attr more,
        Attribute.ofEntry s (Pointer.entry pointer "annotations" index) f = .ok attr ∧
        Attribute.ofEntries s pointer (index + 1) rest = .ok more ∧
        attributes = attr :: more := by
  rw [Attribute.ofEntries]
  cases Attribute.ofEntry s (Pointer.entry pointer "annotations" index) f with
  | error d => simp
  | ok attr =>
    cases Attribute.ofEntries s pointer (index + 1) rest with
    | error d => simp
    | ok more => simp [eq_comm]

theorem Attribute.ofEntry_eq_ok_iff {s : Settings} {pointer : Text} {f : Form} {a : Attribute} :
    Attribute.ofEntry s pointer f = .ok a ↔
      (f.isBare = true → f.path ≠ []) ∧ f.isInner = false ∧
        Attribute.ofForm s pointer f = .ok a := by
  rw [Attribute.ofEntry]
  split
  · rename_i h
    simp only [Bool.and_eq_true, List.isEmpty_iff] at h
    simp [h]
  · rename_i h
    have hbare : f.isBare = true → f.path ≠ [] := by
      intro hb hp
      simp [hb, hp] at h
    split
    · rename_i hinner
      simp [hinner]
    · rename_i hinner
      rw [Bool.not_eq_true] at hinner
      exact ⟨fun h => ⟨hbare, hinner, h⟩, fun h => h.2.2⟩

theorem Attribute.ofForm_eq_ok_iff {s : Settings} {pointer : Text} {f : Form} {a : Attribute} :
    Attribute.ofForm s pointer f = .ok a ↔
      ((f.isDoc = true ∨ f.name ≠ s.directive) ∧ a = .plain f) ∨
        (f.isDoc = false ∧ f.name = s.directive) ∧ ∃ group body,
          f.arguments = [group] ∧ group.isGroup .paren = true ∧
          Body.parse s pointer group.pos group.children = .ok body ∧ a = .directive f body := by
  rw [Attribute.ofForm]
  split
  · rename_i h
    simp only [Bool.or_eq_true, bne_iff_ne, ne_eq] at h
    constructor
    · intro ha
      cases ha
      exact .inl ⟨h, rfl⟩
    · rintro (⟨-, rfl⟩ | ⟨⟨hdoc, hname⟩, -⟩)
      · rfl
      · simp [hdoc, hname] at h
  · rename_i h
    have hdirective : f.isDoc = false ∧ f.name = s.directive := by simpa using h
    have hplain : ¬(f.isDoc = true ∨ f.name ≠ s.directive) := by simp [hdirective]
    simp only [hplain, false_and, false_or]
    split
    · rename_i group harguments
      split
      · rename_i hgroup
        split
        · rename_i d hparse
          constructor
          · intro ha; cases ha
          · rintro ⟨-, group', body, ha, -, hb, -⟩
            rw [harguments] at ha
            cases ha
            rw [hparse] at hb
            cases hb
        · rename_i body hparse
          constructor
          · intro ha
            cases ha
            exact ⟨hdirective, group, body, harguments, hgroup, hparse, rfl⟩
          · rintro ⟨-, group', body', ha, -, hb, rfl⟩
            rw [harguments] at ha
            cases ha
            rw [hparse] at hb
            cases hb
            rfl
      · rename_i hgroup
        constructor
        · intro ha; cases ha
        · rintro ⟨-, group', body, ha, hg, -⟩
          rw [harguments] at ha
          cases ha
          exact absurd hg hgroup
    · rename_i harguments
      constructor
      · intro ha; cases ha
      · rintro ⟨-, group', body, ha, -⟩
        exact absurd ha (harguments group')

/-! ## Directives without positions -/

namespace Body

theorem splitCondition_forgetAll (tokens : List Token) :
    splitCondition (Token.forgetAll tokens) =
      (splitCondition tokens).map fun r =>
        (Token.forgetAll r.1, r.2.1.forget, Token.forgetAll r.2.2) := by
  induction tokens with
  | nil => rfl
  | cons t rest ih =>
    rw [Token.forgetAll_cons]
    simp only [splitCondition, Token.isPunct_forget, ih]
    split
    · rfl
    · rw [Option.map_map, Option.map_map]
      rfl

theorem listTokens_forgetAll (rest : List Token) :
    listTokens (Token.forgetAll rest) = Token.forgetAll (listTokens rest) := by
  have hbrace : braceContent (Token.forgetAll rest) = (braceContent rest).map Token.forgetAll := by
    rcases rest with _ | ⟨group, _ | ⟨comma, _ | ⟨third, rest⟩⟩⟩
    · rfl
    · simp only [Token.forgetAll_cons, Token.forgetAll_nil, braceContent, Token.isGroup_forget,
        Token.children_forget]
      split <;> rfl
    · simp only [Token.forgetAll_cons, Token.forgetAll_nil, braceContent, Token.isGroup_forget,
        Token.isPunct_forget, Token.children_forget]
      split <;> rfl
    · rfl
  rw [listTokens, hbrace, listTokens]
  cases braceContent rest <;> rfl

end Body

namespace Attribute

/-- The forms are read alike if every single one is. -/
theorem ofEntries_forget {s : Settings} {pointer pointer' : Text} {index : Nat}
    {forms forms' : List Form} {attributes : List Attribute}
    (hforms : ∀ f ∈ forms, ∀ {f' pointer pointer' a}, f'.forget = f.forget →
      ofForm s pointer f = .ok a → ∃ a', ofForm s pointer' f' = .ok a' ∧ a'.content = a.content)
    (hforget : forms'.map Form.forget = forms.map Form.forget)
    (h : ofEntries s pointer index forms = .ok attributes) :
    ∃ attributes', ofEntries s pointer' index forms' = .ok attributes' ∧
      contents attributes' = contents attributes := by
  induction forms generalizing index attributes forms' with
  | nil =>
    obtain rfl : forms' = [] := by simpa using hforget
    rw [ofEntries] at h
    cases h
    exact ⟨[], by rw [ofEntries], rfl⟩
  | cons f forms ih =>
    obtain ⟨f', rest', rfl, hf, hrest⟩ := List.map_eq_cons_iff.1 hforget
    obtain ⟨attr, more, hattr, hmore, rfl⟩ := ofEntries_cons_eq_ok_iff.1 h
    obtain ⟨hbare, hinner, hok⟩ := ofEntry_eq_ok_iff.1 hattr
    obtain ⟨hhead, htail⟩ := List.forall_mem_cons.1 hforms
    obtain ⟨attr', hattr', hcontent⟩ := hhead hf hok
    obtain ⟨more', hmore', hcontents⟩ := ih htail hrest hmore
    refine ⟨attr' :: more', ofEntries_cons_eq_ok_iff.2 ⟨attr', more', ?_, hmore', rfl⟩, ?_⟩
    · refine ofEntry_eq_ok_iff.2 ⟨?_, ?_, hattr'⟩
      · intro hb hp
        rw [← Form.isBare_forget, hf, Form.isBare_forget] at hb
        have hpath := congrArg Form.path hf
        rw [Form.path_forget, hp, Form.path_forget, Token.forgetAll_nil] at hpath
        exact hbare hb (Token.forgetAll_eq_nil.1 hpath.symm)
      · rw [← Form.isInner_forget, hf, Form.isInner_forget]
        exact hinner
    · rw [contents, contents, hcontent, hcontents]

end Attribute

theorem Body.parse_forgetAll_of_entries {s : Settings} {pointer pointer' : Text}
    {anchor anchor' : Position} {tokens tokens' : List Token} {b : Body Attribute}
    (hforms : ∀ f : Form, f.size < Token.sizeAll tokens → ∀ {f' pointer pointer' a},
      f'.forget = f.forget → Attribute.ofForm s pointer f = .ok a →
        ∃ a', Attribute.ofForm s pointer' f' = .ok a' ∧ a'.content = a.content)
    (ht : Token.forgetAll tokens' = Token.forgetAll tokens)
    (h : Body.parse s pointer anchor tokens = .ok b) :
    ∃ b', Body.parse s pointer' anchor' tokens' = .ok b' ∧ b'.conditionText = b.conditionText ∧
      Attribute.contents b'.attributes = Attribute.contents b.attributes := by
  obtain ⟨condition, comma, rest, attributes, hsplit, hne, hentries, rfl⟩ := parse_eq_ok_iff.1 h
  -- the division of the other tokens is the same up to positions
  have hsplit' := splitCondition_forgetAll tokens'
  rw [ht, splitCondition_forgetAll, hsplit, Option.map_some] at hsplit'
  obtain ⟨⟨condition', comma', rest'⟩, hs, heq⟩ := Option.map_eq_some_iff.1 hsplit'.symm
  simp only [Prod.mk.injEq] at heq
  obtain ⟨hcondition, -, hrest⟩ := heq
  have hforget : (Form.entries (listTokens rest')).map Form.forget =
      (Form.entries (listTokens rest)).map Form.forget := by
    rw [← Form.entries_forgetAll, ← listTokens_forgetAll, hrest, listTokens_forgetAll,
      Form.entries_forgetAll]
  obtain ⟨attributes', hok, hcontents⟩ := Attribute.ofEntries_forget
    (fun f hf => hforms f (size_lt_of_mem_entries hsplit hf)) hforget hentries
  have hne' : condition' ≠ [] := by
    rintro rfl
    exact hne (Token.forgetAll_eq_nil.1 hcondition.symm)
  refine ⟨_, parse_eq_ok_iff.2 ⟨condition', comma', rest', attributes', hs, hne', hok, rfl⟩, ?_,
    hcontents⟩
  exact congrArg Text.strip (Token.renderAll_of_forgetAll hcondition)

/-- A form is accepted wherever it stands. -/
theorem Attribute.ofForm_forget {s : Settings} {f f' : Form} {pointer pointer' : Text}
    {a : Attribute} (hf : f'.forget = f.forget) (h : ofForm s pointer f = .ok a) :
    ∃ a', ofForm s pointer' f' = .ok a' ∧ a'.content = a.content := by
  induction hn : f.size using Nat.strongRecOn generalizing f f' pointer pointer' a with
  | ind n ih =>
    have hdoc' : f'.isDoc = f.isDoc := by rw [← Form.isDoc_forget, hf, Form.isDoc_forget]
    have hname' : f'.name = f.name := by rw [← Form.name_forget, hf, Form.name_forget]
    have htext' : f'.contentText = f.contentText := by
      rw [← Form.contentText_forget, hf, Form.contentText_forget]
    rcases ofForm_eq_ok_iff.1 h with ⟨hplain, rfl⟩ |
      ⟨⟨hdoc, hname⟩, group, body, harguments, hgroup, hparse, rfl⟩
    · refine ⟨.plain f', ofForm_eq_ok_iff.2 (.inl ⟨by rwa [hdoc', hname'], rfl⟩), htext'⟩
    · have harguments' := congrArg Form.arguments hf
      rw [Form.arguments_forget, Form.arguments_forget, harguments, Token.forgetAll_cons] at harguments'
      obtain ⟨group', rest', hargs, hgroup', hrest⟩ :
          ∃ group' rest', f'.arguments = group' :: rest' ∧ group'.forget = group.forget ∧
            Token.forgetAll rest' = [] := by
        rw [Token.forgetAll_eq_map] at harguments'
        obtain ⟨group', rest', hargs, hg, hr⟩ := List.map_eq_cons_iff.1 harguments'
        exact ⟨group', rest', hargs, hg, by rw [Token.forgetAll_eq_map]; exact hr⟩
      rw [Token.forgetAll_eq_nil] at hrest
      subst hrest
      have hchildren : Token.forgetAll group'.children = Token.forgetAll group.children := by
        rw [← Token.children_forget, hgroup', Token.children_forget]
      have hsize := Form.sizeAll_children_lt_size harguments
      obtain ⟨body', hparse', hcondition, hcontents⟩ := Body.parse_forgetAll_of_entries
        (fun g hg _ _ _ _ hgf hok => ih g.size (by omega) hgf hok rfl) hchildren hparse
      refine ⟨.directive f' body', ofForm_eq_ok_iff.2 (.inr ⟨⟨by rwa [hdoc'], by rwa [hname']⟩, group',
        body', hargs, ?_, hparse', rfl⟩), ?_⟩
      · rw [← Token.isGroup_forget, hgroup', Token.isGroup_forget]
        exact hgroup
      · have hpath : f'.pathText = f.pathText := by
          refine congrArg Text.strip (Token.renderAll_of_forgetAll ?_)
          rw [← Form.path_forget, hf, Form.path_forget]
        obtain ⟨condition, separator, braced, attributes⟩ := body
        obtain ⟨condition', separator', braced', attributes'⟩ := body'
        have hcondition' : Text.strip (Token.renderAll condition') =
            Text.strip (Token.renderAll condition) := hcondition
        simp only [content, deferredText]
        rw [hpath, hcontents, hcondition']

/-- Arguments are accepted wherever they stand. -/
theorem Body.parse_forgetAll {s : Settings} {pointer pointer' : Text} {anchor anchor' : Position}
    {tokens tokens' : List Token} {b : Body Attribute}
    (ht : Token.forgetAll tokens' = Token.forgetAll tokens)
    (h : Body.parse s pointer anchor tokens = .ok b) :
    ∃ b', Body.parse s pointer' anchor' tokens' = .ok b' ∧ b'.conditionText = b.conditionText ∧
      Attribute.contents b'.attributes = Attribute.contents b.attributes :=
  parse_forgetAll_of_entries (fun _ _ _ _ _ _ hf hok => Attribute.ofForm_forget hf hok) ht h

end CondAttrs
