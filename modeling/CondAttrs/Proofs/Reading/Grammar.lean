import CondAttrs.Proofs.Reading.Blame

/-!
# The grammar of directives

What the arguments of a directive look like, said without a reader. They are a condition, a comma
and a list of entries. The list may stand between braces. An entry is an annotation with its marks,
or a run of other tokens up to the next comma, hash or documentation comment; commas stand between
entries or do not, and may be repeated. An entry whose path ends with the directive's name is a
directive again, and its arguments are one group in parentheses that has the same form.

The readers accept exactly this. A path is the longest one, a run the longest one, and the first
comma ends the condition, so that there is one way at most to divide given tokens, and the readers
find it.

## Main definitions

* `AttributePath.IsPath`, `AttributePath.Heads`: paths, and the longest path at the start of tokens.
* `Form.Listed`: tokens that are entries and commas.
* `Body.Divided`: arguments as condition, comma and entries.
* `Body.Fits`, `Attribute.Fits`: arguments and entries that fit the grammar, with what they say.

## Main statements

* `AttributePath.heads_iff`, `Form.listed_iff`, `Body.divided_iff`: the readers divide as the
  grammar does.
* `Attribute.ofEntry_eq_ok_iff_fits`, `Body.parse_eq_ok_iff_fits`: the readers accept what fits.
-/

namespace CondAttrs

/-! ## Paths -/

namespace AttributePath

/-- Any number of segments, each behind a separator. -/
inductive Further : List Token → Prop
  | nil : Further []
  | cons {first second segment : Token} {rest : List Token} : isSeparator first second = true →
      segment.isIdent = true → Further rest → Further (first :: second :: segment :: rest)

/-- A path: segments with separators between them, and possibly one separator in front. -/
inductive IsPath : List Token → Prop
  | relative {segment : Token} {rest : List Token} : segment.isIdent = true → Further rest →
      IsPath (segment :: rest)
  | rooted {first second segment : Token} {rest : List Token} : isSeparator first second = true →
      segment.isIdent = true → Further rest → IsPath (first :: second :: segment :: rest)

/-- The tokens start with `path`, and with no longer path; `arguments` is the rest. The path is
empty if the tokens start with none. -/
structure Heads (path arguments tokens : List Token) : Prop where
  append : path ++ arguments = tokens
  isPath : path = [] ∨ IsPath path
  longest : ∀ longer, IsPath longer → longer <+: tokens → longer.length ≤ path.length

theorem isIdent_of_isSeparator {first second : Token} (h : isSeparator first second = true) :
    first.isIdent = false := by
  rw [isSeparator, Bool.and_eq_true] at h
  obtain ⟨leading, pos, rfl⟩ := Token.isJoint_iff.1 h.1
  rfl

theorem further_spanSegments (tokens : List Token) : Further (spanSegments tokens).1 := by
  fun_induction spanSegments tokens with
  | case1 first second segment rest h ih =>
    rw [Bool.and_eq_true] at h
    exact .cons h.1 h.2 ih
  | case2 => exact .nil
  | case3 => exact .nil

theorem Further.length_le {longer : List Token} (h : Further longer) {tokens : List Token}
    (hstarts : longer <+: tokens) : longer.length ≤ (spanSegments tokens).1.length := by
  induction h generalizing tokens with
  | nil => exact Nat.zero_le _
  | @cons first second segment rest hseparator hsegment _ ih =>
    obtain ⟨more, rfl⟩ := hstarts
    have hrest := ih (List.prefix_append rest more)
    simp only [List.cons_append, spanSegments, hseparator, hsegment, Bool.and_self, ↓reduceIte,
      List.length_cons]
    omega

/-- The longest path is split off. -/
theorem heads_split (tokens : List Token) : Heads (split tokens).1 (split tokens).2 tokens := by
  refine ⟨split_append tokens, ?_, ?_⟩
  · cases tokens with
    | nil => exact .inl rfl
    | cons head rest =>
      simp only [split]
      split
      · rename_i hhead
        exact .inr (.relative hhead (further_spanSegments rest))
      · have hfurther := further_spanSegments (head :: rest)
        generalize (spanSegments (head :: rest)).1 = path at hfurther
        cases hfurther with
        | nil => exact .inl rfl
        | cons hseparator hsegment hmore => exact .inr (.rooted hseparator hsegment hmore)
  · intro longer hlonger hstarts
    cases hlonger with
    | relative hsegment hfurther =>
      obtain ⟨more, rfl⟩ := hstarts
      have hrest := hfurther.length_le (List.prefix_append _ more)
      simp only [List.cons_append, split, hsegment, ↓reduceIte, List.length_cons]
      omega
    | rooted hseparator hsegment hfurther =>
      have hlength := (Further.cons hseparator hsegment hfurther).length_le hstarts
      obtain ⟨more, rfl⟩ := hstarts
      simpa only [List.cons_append, split, isIdent_of_isSeparator hseparator, Bool.false_eq_true,
        ↓reduceIte] using hlength

/-- Two longest paths have the same length. -/
theorem Heads.length_le {path arguments path' arguments' tokens : List Token}
    (h : Heads path arguments tokens) (h' : Heads path' arguments' tokens) :
    path.length ≤ path'.length := by
  rcases h.isPath with rfl | hpath
  · exact Nat.zero_le _
  · exact h'.longest path hpath ⟨arguments, h.append⟩

theorem heads_iff {path arguments tokens : List Token} :
    Heads path arguments tokens ↔ split tokens = (path, arguments) := by
  constructor
  · intro h
    have hsplit := heads_split tokens
    have hlength := Nat.le_antisymm (hsplit.length_le h) (h.length_le hsplit)
    obtain ⟨hpath, harguments⟩ := List.append_inj (hsplit.append.trans h.append.symm) hlength
    exact Prod.ext hpath harguments
  · intro h
    have hsplit := heads_split tokens
    rwa [h] at hsplit

/-- The path that is split off is empty if and only if the tokens start with no path. -/
theorem split_eq_nil_iff {tokens : List Token} :
    (split tokens).1 = [] ↔ ∀ path, IsPath path → ¬ path <+: tokens := by
  have hsplit := heads_split tokens
  constructor
  · intro hnil path hpath hstarts
    have hlength := hsplit.longest path hpath hstarts
    rw [hnil, List.length_nil, Nat.le_zero, List.length_eq_zero_iff] at hlength
    subst hlength
    cases hpath
  · intro hnone
    rcases hsplit.isPath with hnil | hpath
    · exact hnil
    · exact absurd ⟨_, hsplit.append⟩ (hnone _ hpath)

end AttributePath

/-! ## Entries -/

namespace Form

/-- The tokens are the tokens of the forms in order, with commas between them, in front or behind.
A bare form stands where no annotation with its marks can be read, and ends in front of the next
comma, hash or documentation comment. -/
inductive Listed : List Token → List Form → Prop
  | nil : Listed [] []
  | comma {t : Token} {rest : List Token} {forms : List Form} : t.isPunct ',' = true →
      Listed rest forms → Listed (t :: rest) forms
  | proper {f : Form} {rest : List Token} {forms : List Form} : f.Proper → Listed rest forms →
      Listed (f.tokens ++ rest) (f :: forms)
  | run {first : Token} {run rest : List Token} {forms : List Form} : first.isPunct ',' = false →
      (∀ (f : Form) (behind : List Token), f.Proper → first :: (run ++ rest) ≠ f.tokens ++ behind) →
      (∀ t ∈ run, endsBare t = false) → (∀ t, rest.head? = some t → endsBare t = true) →
      Listed rest forms → Listed (first :: (run ++ rest)) (.bare first run :: forms)

theorem read_eq_none_iff {tokens : List Token} :
    read tokens = none ↔
      ∀ (f : Form) (behind : List Token), f.Proper → tokens ≠ f.tokens ++ behind := by
  constructor
  · rintro hread f behind hf rfl
    rw [hf.read] at hread
    cases hread
  · intro hnone
    cases hread : read tokens with
    | none => rfl
    | some r => exact absurd (read_append hread).symm (hnone r.1 r.2 (proper_of_read hread))

theorem Proper.isPunct_comma {f : Form} (h : f.Proper) {t : Token} {rest : List Token}
    (ht : f.tokens = t :: rest) : t.isPunct ',' = false := by
  rcases h with hdoc | hattr
  · obtain ⟨leading, pos, marker, value, rfl⟩ : ∃ leading pos marker value,
        f = .doc leading pos marker value := by
      cases f with
      | doc leading pos marker value => exact ⟨leading, pos, marker, value, rfl⟩
      | _ => cases hdoc
    cases ht
    rfl
  · obtain ⟨hash, more, bracket, htokens, hhash, -⟩ := hattr.tokens_eq
    rw [ht] at htokens
    cases htokens
    exact (Token.selects_isPunct (c := ',') (by decide)).hash hhash

theorem entries_of_comma {t : Token} (h : t.isPunct ',' = true) (rest : List Token) :
    entries (t :: rest) = entries rest := by
  rw [entries, if_pos h]

theorem entries_of_proper {f : Form} (h : f.Proper) (rest : List Token) :
    entries (f.tokens ++ rest) = f :: entries rest := by
  obtain ⟨t, more, ht⟩ := List.exists_cons_of_ne_nil f.tokens_ne_nil
  have hread := h.read rest
  rw [ht, List.cons_append] at hread ⊢
  rw [entries, if_neg (by simp [h.isPunct_comma ht])]
  split
  · rename_i g after hg
    rw [hread] at hg
    cases hg
    rfl
  · rename_i hnone
    rw [hread] at hnone
    cases hnone

theorem entries_of_run {first : Token} {rest : List Token} (hcomma : first.isPunct ',' = false)
    (hread : read (first :: rest) = none) :
    entries (first :: rest) =
      .bare first (rest.takeWhile (!endsBare ·)) :: entries (rest.dropWhile (!endsBare ·)) := by
  rw [entries, if_neg (by simp [hcomma])]
  split
  · rename_i hsome
    rw [hread] at hsome
    cases hsome
  · rfl

theorem takeWhile_run {run rest : List Token} (hrun : ∀ t ∈ run, endsBare t = false)
    (hrest : ∀ t, rest.head? = some t → endsBare t = true) :
    (run ++ rest).takeWhile (!endsBare ·) = run ∧ (run ++ rest).dropWhile (!endsBare ·) = rest := by
  have hpass : ∀ t ∈ run, (!endsBare t) = true := fun t ht => by rw [hrun t ht]; rfl
  rw [List.takeWhile_append_of_pos hpass, List.dropWhile_append_of_pos hpass]
  cases rest with
  | nil => exact ⟨List.append_nil run, rfl⟩
  | cons t rest =>
    simp [hrest t rfl]

theorem listed_entries (tokens : List Token) : Listed tokens (entries tokens) := by
  fun_induction entries tokens with
  | case1 => exact .nil
  | case2 first rest hcomma ih => exact .comma hcomma ih
  | case3 first rest hcomma f after hread ih =>
    rw [← read_append hread]
    exact .proper (proper_of_read hread) ih
  | case4 first rest hcomma hread ih =>
    have happend := List.takeWhile_append_dropWhile (p := fun t => !endsBare t) (l := rest)
    have hlisted := @Listed.run first (rest.takeWhile (!endsBare ·))
      (rest.dropWhile (!endsBare ·)) _ (Bool.eq_false_iff.2 hcomma)
      (by rw [happend]; exact read_eq_none_iff.1 hread) ?_ ?_ ih
    · rwa [happend] at hlisted
    · intro t ht
      simpa using List.all_eq_true.1 List.all_takeWhile t ht
    · intro t ht
      have hhead := List.head?_dropWhile_not (fun t => !endsBare t) rest
      rw [ht] at hhead
      simpa using hhead

/-- The entries are the one division of the tokens. -/
theorem listed_iff {tokens : List Token} {forms : List Form} :
    Listed tokens forms ↔ entries tokens = forms := by
  constructor
  · intro h
    induction h with
    | nil => rw [entries]
    | comma ht _ ih => rw [entries_of_comma ht, ih]
    | proper hf _ ih => rw [entries_of_proper hf, ih]
    | run hcomma hnone hrun hrest _ ih =>
      obtain ⟨htake, hdrop⟩ := takeWhile_run hrun hrest
      rw [entries_of_run hcomma (read_eq_none_iff.2 hnone), htake, hdrop, ih]
  · rintro rfl
    exact listed_entries tokens

/-- The form can be an entry: it is no inner annotation, and a bare one starts with a path. -/
def IsEntry (f : Form) : Prop :=
  f.isInner = false ∧
    (f.isBare = true → ∃ path, AttributePath.IsPath path ∧ path <+: f.content)

/-- The form is a directive with the given arguments: it is no documentation comment, its path ends
with the directive's name, and the arguments are what follows the path. -/
def Directs (s : Settings) (f : Form) (arguments : List Token) : Prop :=
  f.isDoc = false ∧
    ∃ path, AttributePath.Heads path arguments f.content ∧ AttributePath.name path = s.directive

theorem isEntry_iff {f : Form} :
    f.IsEntry ↔ f.isInner = false ∧ (f.isBare = true → f.path ≠ []) := by
  have hpath : (∃ path, AttributePath.IsPath path ∧ path <+: f.content) ↔ f.path ≠ [] := by
    rw [path, ne_eq, AttributePath.split_eq_nil_iff]
    simp
  rw [IsEntry, hpath]

theorem directs_iff {s : Settings} {f : Form} {arguments : List Token} :
    f.Directs s arguments ↔ f.IsDirective s ∧ f.arguments = arguments := by
  have hname : f.isDoc = false → f.name = AttributePath.name f.path := by
    intro hdoc
    cases f with
    | doc => cases hdoc
    | _ => rfl
  constructor
  · rintro ⟨hdoc, path, hheads, hdirective⟩
    have hsplit := AttributePath.heads_iff.1 hheads
    refine ⟨⟨hdoc, ?_⟩, congrArg Prod.snd hsplit⟩
    rw [hname hdoc, Form.path, hsplit, hdirective]
  · rintro ⟨⟨hdoc, hdirective⟩, rfl⟩
    exact ⟨hdoc, f.path, AttributePath.heads_split f.content, by rw [← hname hdoc, hdirective]⟩

end Form

/-! ## Arguments -/

namespace Body

/-- The tokens have no comma outside groups. -/
def NoComma (tokens : List Token) : Prop :=
  ∀ t ∈ tokens, t.isPunct ',' = false

/-- The tokens are one group in braces, with one comma behind it at most. -/
def Braces (tokens inside : List Token) : Prop :=
  ∃ brace behind, tokens = brace :: behind ∧ brace.isGroup .brace = true ∧
    inside = brace.children ∧ (behind = [] ∨ ∃ comma, behind = [comma] ∧ comma.isPunct ',' = true)

/-- The tokens are a condition, the first comma, and entries behind it, with or without braces
around them. -/
inductive Divided : (tokens condition : List Token) → Token → (braced : Bool) → List Form → Prop
  | braced {condition rest inside : List Token} {comma : Token} {forms : List Form} :
      NoComma condition → comma.isPunct ',' = true → Braces rest inside → Form.Listed inside forms →
      Divided (condition ++ comma :: rest) condition comma true forms
  | unbraced {condition rest : List Token} {comma : Token} {forms : List Form} :
      NoComma condition → comma.isPunct ',' = true → (∀ inside, ¬ Braces rest inside) →
      Form.Listed rest forms → Divided (condition ++ comma :: rest) condition comma false forms

theorem splitCondition_eq_none_iff {tokens : List Token} :
    splitCondition tokens = none ↔ NoComma tokens := by
  induction tokens with
  | nil => simp [splitCondition, NoComma]
  | cons t rest ih =>
    rw [splitCondition, NoComma, List.forall_mem_cons, ← NoComma, ← ih]
    by_cases ht : t.isPunct ',' = true
    · simp [ht]
    · simp [ht]

theorem splitCondition_eq_some_iff {tokens condition rest : List Token} {comma : Token} :
    splitCondition tokens = some (condition, comma, rest) ↔
      tokens = condition ++ comma :: rest ∧ NoComma condition ∧ comma.isPunct ',' = true := by
  induction tokens generalizing condition with
  | nil => simp [splitCondition]
  | cons t tokens ih =>
    rw [splitCondition]
    split
    · rename_i ht
      simp only [Option.some.injEq, Prod.mk.injEq]
      constructor
      · rintro ⟨rfl, rfl, rfl⟩
        exact ⟨rfl, List.forall_mem_nil _, ht⟩
      · rintro ⟨htokens, hcondition, -⟩
        cases condition with
        | nil =>
          cases htokens
          exact ⟨rfl, rfl, rfl⟩
        | cons first condition =>
          cases htokens
          rw [hcondition t List.mem_cons_self] at ht
          cases ht
    · rename_i ht
      simp only [Option.map_eq_some_iff, Prod.exists, Prod.mk.injEq]
      constructor
      · rintro ⟨before, _, _, hsplit, rfl, rfl, rfl⟩
        obtain ⟨rfl, hbefore, hcomma⟩ := ih.1 hsplit
        exact ⟨rfl, List.forall_mem_cons.2 ⟨Bool.eq_false_iff.2 ht, hbefore⟩, hcomma⟩
      · rintro ⟨htokens, hcondition, hcomma⟩
        cases condition with
        | nil =>
          cases htokens
          exact absurd hcomma ht
        | cons first condition =>
          cases htokens
          exact ⟨condition, comma, rest,
            ih.2 ⟨rfl, (List.forall_mem_cons.1 hcondition).2, hcomma⟩, rfl, rfl, rfl⟩

theorem braces_iff {rest inside : List Token} :
    Braces rest inside ↔ braceContent rest = some inside := by
  constructor
  · rintro ⟨brace, behind, rfl, hbrace, rfl, rfl | ⟨comma, rfl, hcomma⟩⟩
    · simp [braceContent, hbrace]
    · simp [braceContent, hbrace, hcomma]
  · intro h
    unfold braceContent at h
    split at h
    · rename_i brace
      split at h
      · rename_i hbrace
        cases h
        exact ⟨brace, [], rfl, hbrace, rfl, .inl rfl⟩
      · cases h
    · rename_i brace comma
      split at h
      · rename_i hboth
        cases h
        rw [Bool.and_eq_true] at hboth
        exact ⟨brace, [comma], rfl, hboth.1, rfl, .inr ⟨comma, rfl, hboth.2⟩⟩
      · cases h
    · cases h

/-- The readers divide the arguments as the grammar does. -/
theorem divided_iff {tokens condition : List Token} {comma : Token} {braced : Bool}
    {forms : List Form} :
    Divided tokens condition comma braced forms ↔
      ∃ rest, splitCondition tokens = some (condition, comma, rest) ∧
        (braceContent rest).isSome = braced ∧ Form.entries (listTokens rest) = forms := by
  constructor
  · intro h
    cases h with
    | @braced _ rest inside _ _ hcondition hcomma hbraces hlisted =>
      have hcontent := braces_iff.1 hbraces
      refine ⟨rest, splitCondition_eq_some_iff.2 ⟨rfl, hcondition, hcomma⟩,
        by rw [hcontent]; rfl, ?_⟩
      rw [listTokens, hcontent]
      exact Form.listed_iff.1 hlisted
    | @unbraced _ rest _ _ hcondition hcomma hbraces hlisted =>
      have hcontent : braceContent rest = none :=
        Option.eq_none_iff_forall_ne_some.2 fun inside h => hbraces inside (braces_iff.2 h)
      refine ⟨rest, splitCondition_eq_some_iff.2 ⟨rfl, hcondition, hcomma⟩,
        by rw [hcontent]; rfl, ?_⟩
      rw [listTokens, hcontent]
      exact Form.listed_iff.1 hlisted
  · rintro ⟨rest, hsplit, rfl, hentries⟩
    obtain ⟨rfl, hcondition, hcomma⟩ := splitCondition_eq_some_iff.1 hsplit
    have hlisted := Form.listed_iff.2 hentries
    unfold listTokens at hlisted
    cases hcontent : braceContent rest with
    | some inside =>
      rw [hcontent] at hlisted
      exact .braced hcondition hcomma (braces_iff.2 hcontent) hlisted
    | none =>
      rw [hcontent] at hlisted
      refine .unbraced hcondition hcomma (fun inside hbraces => ?_) hlisted
      rw [braces_iff, hcontent] at hbraces
      cases hbraces

end Body

/-! ## What fits -/

mutual

/-- The tokens are arguments of a directive: a condition that is not empty, a comma, and entries
that fit. -/
inductive Body.Fits (s : Settings) : List Token → Body Attribute → Prop
  | intro {tokens condition : List Token} {comma : Token} {braced : Bool} {forms : List Form}
      {attributes : List Attribute} : Body.Divided tokens condition comma braced forms →
      condition ≠ [] → Attribute.FitAll s forms attributes →
      Body.Fits s tokens ⟨condition, comma.pos, braced, attributes⟩

/-- The forms are entries of a directive, one attribute for each. -/
inductive Attribute.FitAll (s : Settings) : List Form → List Attribute → Prop
  | nil : Attribute.FitAll s [] []
  | cons {f : Form} {forms : List Form} {a : Attribute} {attributes : List Attribute} :
      Attribute.Fits s f a → Attribute.FitAll s forms attributes →
      Attribute.FitAll s (f :: forms) (a :: attributes)

/-- The form is an entry of a directive. If it is a directive itself, its arguments are one group in
parentheses, and what is inside fits. -/
inductive Attribute.Fits (s : Settings) : Form → Attribute → Prop
  | plain {f : Form} : f.IsEntry → (∀ arguments, ¬ f.Directs s arguments) →
      Attribute.Fits s f (.plain f)
  | directive {f : Form} {group : Token} {body : Body Attribute} : f.IsEntry → f.Directs s [group] →
      group.isGroup .paren = true → Body.Fits s group.children body →
      Attribute.Fits s f (.directive f body)

end

section Fits

variable {s : Settings}

theorem Attribute.ofEntries_eq_ok_iff_fitAll {forms : List Form}
    (hforms : ∀ f ∈ forms, ∀ pointer a, ofEntry s pointer f = .ok a ↔ Fits s f a) {pointer : Text}
    {index : Nat} {attributes : List Attribute} :
    ofEntries s pointer index forms = .ok attributes ↔ FitAll s forms attributes := by
  induction forms generalizing index attributes with
  | nil =>
    rw [ofEntries]
    constructor
    · intro h
      cases h
      exact .nil
    · intro h
      cases h
      rfl
  | cons f forms ih =>
    obtain ⟨hf, hforms⟩ := List.forall_mem_cons.1 hforms
    rw [ofEntries_cons_eq_ok_iff]
    constructor
    · rintro ⟨a, more, ha, hmore, rfl⟩
      exact .cons ((hf _ a).1 ha) ((ih hforms).1 hmore)
    · intro h
      cases h with
      | cons ha hmore => exact ⟨_, _, (hf _ _).2 ha, (ih hforms).2 hmore, rfl⟩

theorem Body.parse_eq_ok_iff_of_entries {tokens : List Token}
    (hentries : ∀ f : Form, f.size < Token.sizeAll tokens → ∀ pointer a,
      Attribute.ofEntry s pointer f = .ok a ↔ Attribute.Fits s f a)
    {pointer : Text} {anchor : Position} {body : Body Attribute} :
    Body.parse s pointer anchor tokens = .ok body ↔ Body.Fits s tokens body := by
  rw [parse_eq_ok_iff]
  constructor
  · rintro ⟨condition, comma, rest, attributes, hsplit, hne, hok, rfl⟩
    refine .intro (divided_iff.2 ⟨rest, hsplit, rfl, rfl⟩) hne
      ((Attribute.ofEntries_eq_ok_iff_fitAll fun f hf => ?_).1 hok)
    exact hentries f (size_lt_of_mem_entries hsplit hf)
  · rintro ⟨hdivided, hne, hfit⟩
    obtain ⟨rest, hsplit, rfl, rfl⟩ := divided_iff.1 hdivided
    refine ⟨_, _, rest, _, hsplit, hne,
      (Attribute.ofEntries_eq_ok_iff_fitAll fun f hf => ?_).2 hfit, rfl⟩
    exact hentries f (size_lt_of_mem_entries hsplit hf)

/-- An entry is accepted if and only if it fits the grammar. -/
theorem Attribute.ofEntry_eq_ok_iff_fits {pointer : Text} {f : Form} {a : Attribute} :
    ofEntry s pointer f = .ok a ↔ Fits s f a := by
  induction hn : f.size using Nat.strongRecOn generalizing f pointer a with
  | ind n ih =>
    have hparse : ∀ {group : Token} {body : Body Attribute}, f.arguments = [group] →
        (Body.parse s pointer group.pos group.children = .ok body ↔
          Body.Fits s group.children body) := by
      intro group body harguments
      have hsize := Form.sizeAll_children_lt_size harguments
      exact Body.parse_eq_ok_iff_of_entries fun g hg _ _ => ih g.size (by omega) rfl
    have hplain : (∀ arguments, ¬ f.Directs s arguments) ↔
        f.isDoc = true ∨ f.name ≠ s.directive := by
      simp only [Form.directs_iff, Form.IsDirective]
      cases f.isDoc <;> simp
    rw [ofEntry_eq_ok_iff, ofForm_eq_ok_iff]
    constructor
    · rintro ⟨hbare, hinner,
        ⟨hother, rfl⟩ | ⟨hdirective, group, body, harguments, hgroup, hok, rfl⟩⟩
      · exact .plain (Form.isEntry_iff.2 ⟨hinner, hbare⟩) (hplain.2 hother)
      · exact .directive (Form.isEntry_iff.2 ⟨hinner, hbare⟩)
          (Form.directs_iff.2 ⟨hdirective, harguments⟩) hgroup ((hparse harguments).1 hok)
    · intro h
      cases h with
      | plain hentry hother =>
        obtain ⟨hinner, hbare⟩ := Form.isEntry_iff.1 hentry
        exact ⟨hbare, hinner, .inl ⟨hplain.1 hother, rfl⟩⟩
      | directive hentry hdirects hgroup hfits =>
        obtain ⟨hinner, hbare⟩ := Form.isEntry_iff.1 hentry
        obtain ⟨hdirective, harguments⟩ := Form.directs_iff.1 hdirects
        exact ⟨hbare, hinner, .inr ⟨hdirective, _, _, harguments, hgroup,
          (hparse harguments).2 hfits, rfl⟩⟩

/-- Arguments are accepted if and only if they fit the grammar. -/
theorem Body.parse_eq_ok_iff_fits {pointer : Text} {anchor : Position} {tokens : List Token}
    {body : Body Attribute} :
    Body.parse s pointer anchor tokens = .ok body ↔ Body.Fits s tokens body :=
  parse_eq_ok_iff_of_entries fun _ _ _ _ => Attribute.ofEntry_eq_ok_iff_fits

end Fits

end CondAttrs
