import CondAttrs.Proofs.Reading.Grammar

/-!
# The first entry at fault

An entry of a directive is found by the indices that lead to it from directive to directive. In the
order of these indices, which is the order of a dictionary, an entry comes before what is nested in
it, and what is nested in it comes before the next entry. An entry is *at fault* by itself if it is
no entry of a directive at all, or if it is a directive whose arguments are no condition, comma and
list; what is wrong with the entries of that list is their fault and not its own.

Arguments that do not fit the grammar are refused for the fault of the first entry that is at fault,
unless they have no condition and no comma themselves. So the fault that is reported is determined
by the arguments, whatever the order in which a reader looks for it.

## Main definitions

* `Body.Faulty`, `Form.Faulty`: what is wrong with arguments, or with an entry, by itself.
* `Body.EntryAt`, `Form.EntryAt`: the entry that some indices lead to.
* `Body.FirstFault`: the diagnostic of the first entry at fault.

## Main statements

* `Attribute.Fits.not_faulty`: where the grammar is kept, no entry is at fault.
* `Diagnostic.FirstAmong.unique`: there is one first fault.
* `Body.parse_grammar`: what is accepted, and what is refused with which diagnostic.
-/

namespace CondAttrs

/-! ## Faults of one entry -/

/-- What is wrong with arguments, their entries apart: they have no comma, or no condition in front
of the first one. Arguments without tokens are placed at `anchor`. -/
inductive Body.Faulty (anchor : Position) : List Token → Fault → Position → Prop
  | noSeparator {tokens : List Token} : NoComma tokens →
      Faulty anchor tokens (.separatorMissing (Text.strip (Token.renderAll tokens)))
        ((tokens.getLast?.map Token.pos).getD anchor)
  | noCondition {comma : Token} {rest : List Token} : comma.isPunct ',' = true →
      Faulty anchor (comma :: rest) .conditionMissing comma.pos

/-- What is wrong with an entry, the entries nested in it apart. -/
inductive Form.Faulty (s : Settings) : Form → Fault → Position → Prop
  /-- It has no marks and starts with no path. -/
  | pathless {f : Form} : f.isBare = true →
      (∀ path, AttributePath.IsPath path → ¬ path <+: f.content) →
      Faulty s f (.annotationExpected f.text) f.pos
  /-- It is an inner annotation. -/
  | inner {f : Form} : f.isInner = true → Faulty s f (.annotationInner f.text) f.pos
  /-- It is a directive without exactly one group of arguments in parentheses. -/
  | malformed {f : Form} {arguments : List Token} : f.IsEntry → f.Directs s arguments →
      (∀ group, arguments = [group] → group.isGroup .paren = false) →
      Faulty s f (.argumentsMalformed s.directive f.text) f.pos
  /-- It is a directive with something wrong about its arguments. -/
  | arguments {f : Form} {group : Token} {fault : Fault} {pos : Position} : f.IsEntry →
      f.Directs s [group] → group.isGroup .paren = true →
      Body.Faulty group.pos group.children fault pos → Faulty s f fault pos

/-! ## Entries at all depths -/

mutual

/-- The indices lead to the entry: the first one tells the entry of the arguments, the others lead
on from there. -/
inductive Body.EntryAt (s : Settings) : List Token → List Nat → Form → Prop
  | intro {tokens condition : List Token} {comma : Token} {braced : Bool} {forms : List Form}
      {index : Nat} {path : List Nat} {f g : Form} :
      Body.Divided tokens condition comma braced forms → condition ≠ [] → forms[index]? = some f →
      Form.EntryAt s f path g → Body.EntryAt s tokens (index :: path) g

/-- The indices lead from the form to an entry nested in it, or to the form itself if there are
none. -/
inductive Form.EntryAt (s : Settings) : Form → List Nat → Form → Prop
  | self (f : Form) : Form.EntryAt s f [] f
  | inside {f g : Form} {group : Token} {path : List Nat} : f.Directs s [group] →
      group.isGroup .paren = true → Body.EntryAt s group.children path g → Form.EntryAt s f path g

end

/-- The first entry comes before the second one, or is that entry: the order of the text, in which a
directive comes before what is nested in it. -/
def NotBehind (path path' : List Nat) : Prop :=
  path = path' ∨ List.Lex (· < ·) path path'

/-- The diagnostic is that of the first entry at fault, and its pointer leads there. The entries are
given by the indices that lead to them. -/
def Diagnostic.FirstAmong (s : Settings) (pointer : Text) (entryAt : List Nat → Form → Prop)
    (d : Diagnostic) : Prop :=
  ∃ path f, entryAt path f ∧ f.Faulty s d.fault d.pos ∧
    d.pointer = pointer ++ Pointer.ofSteps (nestedSteps path) ∧
    ∀ path' f' fault pos, entryAt path' f' → f'.Faulty s fault pos → NotBehind path path'

/-- The diagnostic says what is wrong with the arguments, or it is that of the first entry at
fault. -/
def Body.FirstFault (s : Settings) (pointer : Text) (anchor : Position) (tokens : List Token)
    (d : Diagnostic) : Prop :=
  (Body.Faulty anchor tokens d.fault d.pos ∧ d.pointer = pointer) ∨
    d.FirstAmong s pointer (Body.EntryAt s tokens)

theorem NotBehind.cons {index : Nat} {path path' : List Nat} (h : NotBehind path path') :
    NotBehind (index :: path) (index :: path') := by
  rcases h with rfl | h
  · exact .inl rfl
  · exact .inr (.cons h)

theorem notBehind_nil (path : List Nat) : NotBehind [] path := by
  cases path with
  | nil => exact .inl rfl
  | cons index path => exact .inr .nil

theorem NotBehind.antisymm {path path' : List Nat} (h : NotBehind path path')
    (h' : NotBehind path' path) : path = path' := by
  rcases h with h | h
  · exact h
  rcases h' with h' | h'
  · exact h'.symm
  · exact absurd h' (List.lex_asymm Nat.lt_asymm h)

/-! ## One way to divide -/

section Unique

variable {s : Settings}

theorem Body.Divided.unique {tokens condition condition' : List Token} {comma comma' : Token}
    {braced braced' : Bool} {forms forms' : List Form}
    (h : Divided tokens condition comma braced forms)
    (h' : Divided tokens condition' comma' braced' forms') :
    condition = condition' ∧ forms = forms' := by
  obtain ⟨rest, hsplit, -, hforms⟩ := divided_iff.1 h
  obtain ⟨rest', hsplit', -, hforms'⟩ := divided_iff.1 h'
  rw [hsplit] at hsplit'
  cases hsplit'
  exact ⟨rfl, hforms.symm.trans hforms'⟩

theorem Form.Directs.unique {f : Form} {arguments arguments' : List Token}
    (h : f.Directs s arguments) (h' : f.Directs s arguments') : arguments = arguments' :=
  (directs_iff.1 h).2.symm.trans (directs_iff.1 h').2

/-- Arguments with a condition and a comma are not at fault by themselves. -/
theorem Body.Divided.not_faulty {tokens condition : List Token} {comma : Token} {braced : Bool}
    {forms : List Form} (h : Divided tokens condition comma braced forms) (hne : condition ≠ [])
    {anchor pos : Position} {fault : Fault} : ¬ Body.Faulty anchor tokens fault pos := by
  obtain ⟨rest, hsplit, -⟩ := divided_iff.1 h
  intro hfaulty
  cases hfaulty with
  | noSeparator hnone =>
    rw [splitCondition_eq_none_iff.2 hnone] at hsplit
    cases hsplit
  | noCondition hcomma =>
    rw [splitCondition, if_pos hcomma] at hsplit
    cases hsplit
    exact hne rfl

theorem Body.entryAt_iff {tokens condition : List Token} {comma : Token} {braced : Bool}
    {forms : List Form} (h : Divided tokens condition comma braced forms) (hne : condition ≠ [])
    {path : List Nat} {g : Form} :
    EntryAt s tokens path g ↔
      ∃ index more f, path = index :: more ∧ forms[index]? = some f ∧ f.EntryAt s more g := by
  constructor
  · rintro ⟨hdivided, -, hget, hentry⟩
    rw [← (h.unique hdivided).2] at hget
    exact ⟨_, _, _, rfl, hget, hentry⟩
  · rintro ⟨index, more, f, rfl, hget, hentry⟩
    exact .intro h hne hget hentry

theorem Form.entryAt_nil {f g : Form} (h : f.EntryAt s [] g) : g = f := by
  cases h with
  | self => rfl
  | inside _ _ hbody => cases hbody

theorem Form.entryAt_cons {f g : Form} {index : Nat} {path : List Nat}
    (h : f.EntryAt s (index :: path) g) :
    ∃ group, f.Directs s [group] ∧ group.isGroup .paren = true ∧
      Body.EntryAt s group.children (index :: path) g := by
  cases h with
  | inside hdirects hgroup hbody => exact ⟨_, hdirects, hgroup, hbody⟩

/-- The indices lead to one entry. -/
theorem Form.EntryAt.unique {f g g' : Form} {path : List Nat} (h : f.EntryAt s path g)
    (h' : f.EntryAt s path g') : g = g' := by
  induction path generalizing f with
  | nil => rw [entryAt_nil h, entryAt_nil h']
  | cons index path ih =>
    obtain ⟨group, hdirects, -, hbody⟩ := entryAt_cons h
    obtain ⟨group', hdirects', -, hbody'⟩ := entryAt_cons h'
    cases hdirects.unique hdirects'
    obtain ⟨hdivided, hne, hget, hentry⟩ := hbody
    obtain ⟨_, _, _, hpath, hget', hentry'⟩ := (Body.entryAt_iff hdivided hne).1 hbody'
    cases hpath
    rw [hget] at hget'
    cases hget'
    exact ih hentry hentry'

theorem Body.EntryAt.unique {tokens : List Token} {g g' : Form} {path : List Nat}
    (h : EntryAt s tokens path g) (h' : EntryAt s tokens path g') : g = g' := by
  obtain ⟨hdivided, hne, hget, hentry⟩ := h
  obtain ⟨_, _, _, hpath, hget', hentry'⟩ := (entryAt_iff hdivided hne).1 h'
  cases hpath
  rw [hget] at hget'
  cases hget'
  exact hentry.unique hentry'

theorem Form.isInner_of_isBare {f : Form} (h : f.isBare = true) : f.isInner = false := by
  cases f with
  | bare => rfl
  | _ => cases h

theorem Form.Faulty.isEntry_cases {f : Form} {fault : Fault} {pos : Position}
    (h : f.Faulty s fault pos) (hentry : f.IsEntry) :
    ∃ arguments, f.Directs s arguments ∧
      ((∀ group, arguments = [group] → group.isGroup .paren = false) ∧
          fault = .argumentsMalformed s.directive f.text ∧ pos = f.pos ∨
        ∃ group, arguments = [group] ∧ group.isGroup .paren = true ∧
          Body.Faulty group.pos group.children fault pos) := by
  cases h with
  | pathless hbare hnone =>
    obtain ⟨path, hpath, hstarts⟩ := hentry.2 hbare
    exact absurd hstarts (hnone path hpath)
  | inner hinner =>
    rw [hentry.1] at hinner
    cases hinner
  | malformed _ hdirects hgroup => exact ⟨_, hdirects, .inl ⟨hgroup, rfl, rfl⟩⟩
  | arguments _ hdirects hgroup hbody => exact ⟨_, hdirects, .inr ⟨_, rfl, hgroup, hbody⟩⟩

theorem Body.Faulty.unique {anchor pos pos' : Position} {tokens : List Token} {fault fault' : Fault}
    (h : Faulty anchor tokens fault pos) (h' : Faulty anchor tokens fault' pos') :
    fault = fault' ∧ pos = pos' := by
  cases h with
  | noSeparator hnone =>
    cases h' with
    | noSeparator => exact ⟨rfl, rfl⟩
    | noCondition hcomma =>
      rw [hnone _ List.mem_cons_self] at hcomma
      cases hcomma
  | noCondition hcomma =>
    cases h' with
    | noSeparator hnone =>
      rw [hnone _ List.mem_cons_self] at hcomma
      cases hcomma
    | noCondition => exact ⟨rfl, rfl⟩

/-- One thing is wrong with an entry. -/
theorem Form.Faulty.unique {f : Form} {fault fault' : Fault} {pos pos' : Position}
    (h : f.Faulty s fault pos) (h' : f.Faulty s fault' pos') : fault = fault' ∧ pos = pos' := by
  by_cases hentry : f.IsEntry
  · obtain ⟨arguments, hdirects, hcases⟩ := h.isEntry_cases hentry
    obtain ⟨arguments', hdirects', hcases'⟩ := h'.isEntry_cases hentry
    cases hdirects.unique hdirects'
    rcases hcases with ⟨hnone, rfl, rfl⟩ | ⟨group, rfl, hgroup, hbody⟩
    · rcases hcases' with ⟨-, rfl, rfl⟩ | ⟨group, harguments, hgroup, -⟩
      · exact ⟨rfl, rfl⟩
      · rw [hnone group harguments] at hgroup
        cases hgroup
    · rcases hcases' with ⟨hnone, -, -⟩ | ⟨_, harguments, -, hbody'⟩
      · rw [hnone group rfl] at hgroup
        cases hgroup
      · cases harguments
        exact hbody.unique hbody'
  · -- without a path or with an inner mark, and not both: a bare form has no marks
    cases h with
    | pathless hbare =>
      cases h' with
      | pathless => exact ⟨rfl, rfl⟩
      | inner hinner =>
        rw [isInner_of_isBare hbare] at hinner
        cases hinner
      | malformed hentry' => exact absurd hentry' hentry
      | arguments hentry' => exact absurd hentry' hentry
    | inner hinner =>
      cases h' with
      | pathless hbare =>
        rw [isInner_of_isBare hbare] at hinner
        cases hinner
      | inner => exact ⟨rfl, rfl⟩
      | malformed hentry' => exact absurd hentry' hentry
      | arguments hentry' => exact absurd hentry' hentry
    | malformed hentry' => exact absurd hentry' hentry
    | arguments hentry' => exact absurd hentry' hentry

/-- There is one first fault. -/
theorem Diagnostic.FirstAmong.unique {pointer : Text} {entryAt : List Nat → Form → Prop}
    {d d' : Diagnostic} (h : d.FirstAmong s pointer entryAt) (h' : d'.FirstAmong s pointer entryAt)
    (hunique : ∀ path f f', entryAt path f → entryAt path f' → f = f') : d = d' := by
  obtain ⟨path, f, hentry, hfaulty, hpointer, hfirst⟩ := h
  obtain ⟨path', f', hentry', hfaulty', hpointer', hfirst'⟩ := h'
  obtain rfl := (hfirst _ _ _ _ hentry' hfaulty').antisymm (hfirst' _ _ _ _ hentry hfaulty)
  obtain rfl := hunique _ _ _ hentry hentry'
  obtain ⟨hfault, hpos⟩ := hfaulty.unique hfaulty'
  cases d
  cases d'
  simp_all

end Unique

/-! ## No fault where the grammar is kept -/

section Fits

variable {s : Settings}

theorem Attribute.FitAll.exists_fits {forms : List Form} {attributes : List Attribute}
    (h : FitAll s forms attributes) {f : Form} (hf : f ∈ forms) : ∃ a, Fits s f a := by
  induction forms generalizing attributes with
  | nil => cases hf
  | cons g forms ih =>
    cases h with
    | cons hg hforms =>
      rcases List.mem_cons.1 hf with rfl | hf
      · exact ⟨_, hg⟩
      · exact ih hforms hf

theorem Attribute.Fits.isEntry {f : Form} {a : Attribute} (h : Fits s f a) : f.IsEntry := by
  cases h with
  | plain hentry => exact hentry
  | directive hentry => exact hentry

/-- A directive that fits has one group of arguments, and these fit. -/
theorem Attribute.Fits.exists_body {f : Form} {a : Attribute} (h : Fits s f a)
    {arguments : List Token} (hdirects : f.Directs s arguments) :
    ∃ group body, arguments = [group] ∧ group.isGroup .paren = true ∧
      Body.Fits s group.children body := by
  cases h with
  | plain _ hnone => exact absurd hdirects (hnone arguments)
  | directive _ hdirects' hgroup hbody => exact ⟨_, _, hdirects.unique hdirects', hgroup, hbody⟩

theorem Body.Fits.not_faulty {tokens : List Token} {body : Body Attribute} (h : Fits s tokens body)
    {anchor pos : Position} {fault : Fault} : ¬ Body.Faulty anchor tokens fault pos := by
  obtain ⟨hdivided, hne, -⟩ := h
  exact hdivided.not_faulty hne

/-- No entry of a form that fits is at fault, the form itself included. -/
theorem Attribute.Fits.not_faulty {f g : Form} {a : Attribute} (h : Fits s f a) {path : List Nat}
    (hentry : f.EntryAt s path g) {fault : Fault} {pos : Position} : ¬ g.Faulty s fault pos := by
  induction path generalizing f a with
  | nil =>
    rw [Form.entryAt_nil hentry]
    intro hfaulty
    obtain ⟨arguments, hdirects, hcases⟩ := hfaulty.isEntry_cases h.isEntry
    obtain ⟨group, body, rfl, hgroup, hbody⟩ := h.exists_body hdirects
    rcases hcases with ⟨hnone, -⟩ | ⟨_, harguments, -, hfaulty⟩
    · rw [hnone group rfl] at hgroup
      cases hgroup
    · cases harguments
      exact hbody.not_faulty hfaulty
  | cons index path ih =>
    obtain ⟨group, hdirects, -, hinside⟩ := Form.entryAt_cons hentry
    obtain ⟨_, _, harguments, -, hbody⟩ := h.exists_body hdirects
    cases harguments
    obtain ⟨hdivided, hne, hall⟩ := hbody
    obtain ⟨_, _, k, hpath, hget, hmore⟩ := (Body.entryAt_iff hdivided hne).1 hinside
    cases hpath
    obtain ⟨b, hfits⟩ := hall.exists_fits (List.mem_of_getElem? hget)
    exact ih hfits hmore

theorem Body.Fits.not_firstFault {tokens : List Token} {body : Body Attribute}
    (h : Fits s tokens body) {pointer : Text} {anchor : Position} {d : Diagnostic} :
    ¬ FirstFault s pointer anchor tokens d := by
  rintro (⟨hfaulty, -⟩ | ⟨path, f, hentry, hfaulty, -⟩)
  · exact h.not_faulty hfaulty
  · obtain ⟨hdivided, hne, hall⟩ := h
    obtain ⟨index, more, g, -, hget, hmore⟩ := (entryAt_iff hdivided hne).1 hentry
    obtain ⟨a, hfits⟩ := hall.exists_fits (List.mem_of_getElem? hget)
    exact hfits.not_faulty hmore hfaulty

end Fits

/-! ## What is refused -/

section Refused

variable {s : Settings} {pointer : Text} {d : Diagnostic}

/-- The entries of a directive are refused for the first one that is not accepted. -/
theorem Attribute.exists_first_of_ofEntries {forms : List Form} {index : Nat}
    (h : ofEntries s pointer index forms = .error d) :
    ∃ before f after, forms = before ++ f :: after ∧ (∀ g ∈ before, ∃ a, Fits s g a) ∧
      ofEntry s (Pointer.entry pointer "annotations" (index + before.length)) f = .error d := by
  induction forms generalizing index with
  | nil =>
    rw [ofEntries] at h
    cases h
  | cons f forms ih =>
    rw [ofEntries] at h
    split at h
    · rename_i hentry
      cases h
      exact ⟨[], f, forms, rfl, List.forall_mem_nil _, hentry⟩
    rename_i a ha
    split at h
    · rename_i hentries
      cases h
      obtain ⟨before, g, after, rfl, hbefore, hentry⟩ := ih hentries
      refine ⟨f :: before, g, after, rfl,
        List.forall_mem_cons.2 ⟨⟨a, ofEntry_eq_ok_iff_fits.1 ha⟩, hbefore⟩, ?_⟩
      rwa [List.length_cons, Nat.add_comm before.length, ← Nat.add_assoc]
    · cases h

/-- Among the entries of a list, the first fault is that of the first one that is not accepted. -/
theorem Attribute.firstAmong_of_ofEntries {forms : List Form}
    (hforms : ∀ f ∈ forms, ∀ pointer, ofEntry s pointer f = .error d →
      d.FirstAmong s pointer (f.EntryAt s))
    (h : ofEntries s pointer 0 forms = .error d) :
    d.FirstAmong s pointer fun path g =>
      ∃ index more f, path = index :: more ∧ forms[index]? = some f ∧ f.EntryAt s more g := by
  obtain ⟨before, f, after, rfl, hbefore, herror⟩ := exists_first_of_ofEntries h
  obtain ⟨path, g, hentry, hfaulty, hpointer, hfirst⟩ := hforms f (by simp) _ herror
  refine ⟨before.length :: path, g, ⟨_, _, f, rfl, by simp, hentry⟩, hfaulty, ?_, ?_⟩
  · rw [hpointer, Nat.zero_add, Pointer.entry_eq, List.append_assoc, ← Pointer.ofSteps_append]
    rfl
  · rintro _ g' fault pos ⟨index, more, f', rfl, hget, hentry'⟩ hfaulty'
    rcases Nat.lt_trichotomy index before.length with hlt | rfl | hgt
    · -- an entry further in front has been accepted
      rw [List.getElem?_append_left hlt] at hget
      obtain ⟨a, hfits⟩ := hbefore f' (List.mem_of_getElem? hget)
      exact absurd hfaulty' (hfits.not_faulty hentry')
    · have hsame : f' = f := by simpa using hget.symm
      subst hsame
      exact (hfirst _ _ _ _ hentry' hfaulty').cons
    · exact .inr (.rel hgt)

/-- Arguments are refused for what is wrong with them, or for an entry. -/
theorem Body.refused_cases {anchor : Position} {tokens : List Token}
    (h : Body.parse s pointer anchor tokens = .error d) :
    (Body.Faulty anchor tokens d.fault d.pos ∧ d.pointer = pointer) ∨
      ∃ condition comma rest, splitCondition tokens = some (condition, comma, rest) ∧
        condition ≠ [] ∧
        Attribute.ofEntries s pointer 0 (Form.entries (listTokens rest)) = .error d := by
  rw [Body.parse] at h
  split at h
  · rename_i hsplit
    cases h
    exact .inl ⟨.noSeparator (splitCondition_eq_none_iff.1 hsplit), rfl⟩
  · rename_i comma rest hsplit
    cases h
    obtain ⟨rfl, -, hcomma⟩ := splitCondition_eq_some_iff.1 hsplit
    exact .inl ⟨.noCondition hcomma, rfl⟩
  · rename_i condition comma rest hne hsplit
    split at h
    · rename_i herror
      cases h
      exact .inr ⟨condition, comma, rest, hsplit, hne, herror⟩
    · cases h

theorem Body.firstFault_of_entries {anchor : Position} {tokens : List Token}
    (hentries : ∀ f : Form, f.size < Token.sizeAll tokens → ∀ pointer,
      Attribute.ofEntry s pointer f = .error d → d.FirstAmong s pointer (f.EntryAt s))
    (h : Body.parse s pointer anchor tokens = .error d) : FirstFault s pointer anchor tokens d := by
  rcases refused_cases h with hfaulty | ⟨condition, comma, rest, hsplit, hne, herror⟩
  · exact .inl hfaulty
  · right
    have hfirst := Attribute.firstAmong_of_ofEntries
      (fun f hf => hentries f (size_lt_of_mem_entries hsplit hf)) herror
    have hentryAt := @entryAt_iff s _ _ _ _ _ (divided_iff.2 ⟨rest, hsplit, rfl, rfl⟩) hne
    obtain ⟨path, f, hentry, hfaulty, hpointer, hbefore⟩ := hfirst
    exact ⟨path, f, hentryAt.2 hentry, hfaulty, hpointer, fun path' f' fault pos hentry' =>
      hbefore path' f' fault pos (hentryAt.1 hentry')⟩

/-- The form at fault is the form itself. -/
theorem Diagnostic.firstAmong_self {f : Form} (h : f.Faulty s d.fault d.pos)
    (hpointer : d.pointer = pointer) : d.FirstAmong s pointer (f.EntryAt s) :=
  ⟨[], f, .self f, h, hpointer.trans (List.append_nil pointer).symm,
    fun path _ _ _ _ _ => notBehind_nil path⟩

/-- A directive is at fault for its arguments as a whole, or for the first of their entries at
fault. -/
theorem Diagnostic.firstAmong_of_arguments {f : Form} {group : Token} (hentry : f.IsEntry)
    (hdirects : f.Directs s [group]) (hgroup : group.isGroup .paren = true)
    (h : Body.FirstFault s pointer group.pos group.children d) :
    d.FirstAmong s pointer (f.EntryAt s) := by
  rcases h with ⟨hfaulty, hpointer⟩ | ⟨path, g, hinside, hfaulty, hpointer, hfirst⟩
  · exact firstAmong_self (.arguments hentry hdirects hgroup hfaulty) hpointer
  · refine ⟨path, g, .inside hdirects hgroup hinside, hfaulty, hpointer, ?_⟩
    intro path' g' fault pos hentry' hfaulty'
    cases path' with
    | nil =>
      -- the directive itself is not at fault, since its arguments have entries
      obtain ⟨hdivided, hne, -, -⟩ := hinside
      rw [Form.entryAt_nil hentry'] at hfaulty'
      obtain ⟨_, hdirects', hcases⟩ := hfaulty'.isEntry_cases hentry
      cases hdirects.unique hdirects'
      rcases hcases with ⟨hnone, -⟩ | ⟨_, hsame, -, hbody⟩
      · rw [hnone group rfl] at hgroup
        cases hgroup
      · cases hsame
        exact absurd hbody (hdivided.not_faulty hne)
    | cons index more =>
      obtain ⟨_, hdirects', -, hinside'⟩ := Form.entryAt_cons hentry'
      cases hdirects.unique hdirects'
      exact hfirst _ _ _ _ hinside' hfaulty'

/-- An entry is refused for the first fault among the entries nested in it and itself. -/
theorem Attribute.firstAmong_of_ofEntry {f : Form} (h : ofEntry s pointer f = .error d) :
    d.FirstAmong s pointer (f.EntryAt s) := by
  induction hn : f.size using Nat.strongRecOn generalizing f pointer with
  | ind n ih =>
    rw [ofEntry] at h
    split at h
    · rename_i hbare
      cases h
      rw [Bool.and_eq_true, List.isEmpty_iff] at hbare
      exact Diagnostic.firstAmong_self
        (.pathless hbare.1 (AttributePath.split_eq_nil_iff.1 hbare.2)) rfl
    rename_i hbare
    split at h
    · rename_i hinner
      cases h
      exact Diagnostic.firstAmong_self (.inner hinner) rfl
    rename_i hinner
    have hentry : f.IsEntry := by
      refine Form.isEntry_iff.2 ⟨Bool.eq_false_iff.2 hinner, fun hb hpath => hbare ?_⟩
      rw [hb, hpath]
      rfl
    rw [ofForm] at h
    split at h
    · cases h
    rename_i hdirective
    have hdirects : f.Directs s f.arguments :=
      Form.directs_iff.2 ⟨by simpa [Form.IsDirective] using hdirective, rfl⟩
    split at h
    · rename_i group harguments
      rw [harguments] at hdirects
      split at h
      · rename_i hgroup
        split at h
        · rename_i herror
          cases h
          have hsize := Form.sizeAll_children_lt_size harguments
          exact Diagnostic.firstAmong_of_arguments hentry hdirects hgroup
            (Body.firstFault_of_entries (fun g hg _ hg' => ih g.size (by omega) hg' rfl) herror)
        · cases h
      · rename_i hgroup
        cases h
        refine Diagnostic.firstAmong_self (.malformed hentry hdirects fun group' hsame => ?_) rfl
        cases hsame
        exact Bool.eq_false_iff.2 hgroup
    · rename_i hother
      cases h
      exact Diagnostic.firstAmong_self
        (.malformed hentry hdirects fun group hsame => absurd hsame (hother group)) rfl

/-- Arguments are refused with a diagnostic if and only if it is that of the first fault. -/
theorem Body.parse_eq_error_iff {anchor : Position} {tokens : List Token} :
    Body.parse s pointer anchor tokens = .error d ↔ FirstFault s pointer anchor tokens d := by
  have hfirst : ∀ {d}, Body.parse s pointer anchor tokens = .error d →
      FirstFault s pointer anchor tokens d :=
    firstFault_of_entries fun _ _ _ => Attribute.firstAmong_of_ofEntry
  refine ⟨hfirst, fun h => ?_⟩
  cases hparse : Body.parse s pointer anchor tokens with
  | ok body => exact absurd h (parse_eq_ok_iff_fits.1 hparse).not_firstFault
  | error d' =>
    refine congrArg Except.error ?_
    rcases hfirst hparse with ⟨hfaulty, hpointer⟩ | hamong
    · rcases h with ⟨hfaulty', hpointer'⟩ | ⟨_, _, hentry, -⟩
      · obtain ⟨hfault, hpos⟩ := hfaulty.unique hfaulty'
        cases d
        cases d'
        simp_all
      · obtain ⟨hdivided, hne, -, -⟩ := hentry
        exact absurd hfaulty (hdivided.not_faulty hne)
    · rcases h with ⟨hfaulty', -⟩ | hamong'
      · obtain ⟨_, _, hentry, -⟩ := hamong
        obtain ⟨hdivided, hne, -, -⟩ := hentry
        exact absurd hfaulty' (hdivided.not_faulty hne)
      · exact hamong.unique hamong' fun _ _ _ => Body.EntryAt.unique

end Refused

/-- The arguments of a directive are accepted if and only if they fit the grammar, and the result
lists their entries in order, each read by the same grammar. They are refused with a diagnostic if
and only if it says that they lack a condition or a comma, or is the diagnostic of the first entry
at fault, in the order of the text and directives before what is nested in them. -/
theorem Body.parse_grammar (s : Settings) (pointer : Text) (group : Token) :
    (∀ body, Body.parse s pointer group.pos group.children = .ok body ↔
      Body.Fits s group.children body) ∧
    ∀ d, Body.parse s pointer group.pos group.children = .error d ↔
      Body.FirstFault s pointer group.pos group.children d :=
  ⟨fun _ => parse_eq_ok_iff_fits, fun _ => parse_eq_error_iff⟩

end CondAttrs
