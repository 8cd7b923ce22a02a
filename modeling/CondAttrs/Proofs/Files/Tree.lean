import CondAttrs.Files.Tree

/-!
# Trees that grow

A tree *extends* another one if everything in that one is still there: files with their content,
links with their target, and folders, though with more in them. A path that led somewhere leads to
the same place in a tree that extends the old one. Putting a new entry into a folder extends the
tree.

Below a folder without links a list of names leads to the location with the same names.

## Main definitions

* `Node.Extends`: everything in a tree is in another one, too.
* `Node.Retains`: the same, but for the texts of files.
* `Node.Spelled`: a name that a path can spell and the machine takes.
* `Node.Regular`: a tree of folders and text files, without links.

## Main statements

* `Node.rel_at?_put`: putting an entry somewhere leaves everything else alone.
* `Node.Retains.walk_eq`: a walk ends in the same place in a tree that retains the old one.
* `Node.walk_eq`, `Node.walk_missing`: walks along names that exist, and that do not.
-/

namespace CondAttrs.Node

/-! ## Entries at locations -/

@[simp] theorem at?_nil (node : Node) : node.at? [] = some node := by
  rw [at?]

theorem at?_folder (entries : List (Text × Node)) (name : Text) (rest : List Text) :
    (folder entries).at? (name :: rest) = (entries.lookup name).bind fun node => node.at? rest := by
  rw [at?]

/-- Only a folder has anything below it. -/
theorem exists_of_at?_cons {node found : Node} {name : Text} {rest : List Text}
    (h : node.at? (name :: rest) = some found) :
    ∃ entries child, node = folder entries ∧ entries.lookup name = some child ∧
      child.at? rest = some found := by
  cases node with
  | folder entries =>
    rw [at?_folder] at h
    obtain ⟨child, hchild, hrest⟩ := Option.bind_eq_some_iff.1 h
    exact ⟨entries, child, rfl, hchild, hrest⟩
  | file content => cases h
  | link target => cases h

theorem at?_append (node : Node) (location rest : List Text) :
    node.at? (location ++ rest) = (node.at? location).bind fun found => found.at? rest := by
  induction location generalizing node with
  | nil => rw [List.nil_append, at?_nil, Option.bind_some]
  | cons name location ih =>
    cases node with
    | folder entries =>
      rw [List.cons_append, at?_folder, at?_folder, Option.bind_assoc]
      exact congrArg _ (funext fun child => ih child)
    | file content => rfl
    | link target => rfl

/-- The entries of a folder are found under their names. -/
theorem at?_concat {root : Node} {location : List Text} {entries : List (Text × Node)}
    (h : root.at? location = some (folder entries)) (name : Text) :
    root.at? (location ++ [name]) = entries.lookup name := by
  rw [at?_append, h, Option.bind_some, at?_folder]
  simp only [at?_nil, Option.bind_fun_some]

/-- What is on the way to an entry is a folder. -/
theorem exists_folder_of_at? {root found : Node} {location rest : List Text} {name : Text}
    (h : root.at? (location ++ name :: rest) = some found) :
    ∃ entries child, root.at? location = some (folder entries) ∧
      entries.lookup name = some child ∧ child.at? rest = some found := by
  rw [at?_append] at h
  obtain ⟨node, hnode, hfound⟩ := Option.bind_eq_some_iff.1 h
  obtain ⟨entries, child, rfl, hchild, hrest⟩ := exists_of_at?_cons hfound
  exact ⟨entries, child, hnode, hchild, hrest⟩

/-- Above a folder there is a folder. -/
theorem exists_folder_dropLast {root : Node} {location : List Text} {entries : List (Text × Node)}
    (h : root.at? location = some (folder entries)) :
    ∃ entries', root.at? location.dropLast = some (folder entries') := by
  by_cases hne : location = []
  · subst hne
    exact ⟨entries, h⟩
  · rw [← List.dropLast_concat_getLast hne] at h
    obtain ⟨entries', -, hfolder, -⟩ := exists_folder_of_at? h
    exact ⟨entries', hfolder⟩

theorem at?_append_none {root : Node} {location : List Text} (h : root.at? location = none)
    (rest : List Text) : root.at? (location ++ rest) = none := by
  rw [at?_append, h, Option.bind_none]

/-! ## Setting an entry -/

theorem lookup_setEntry_self (name : Text) (node : Node) (entries : List (Text × Node)) :
    (setEntry name node entries).lookup name = some node := by
  induction entries with
  | nil => simp [setEntry]
  | cons entry entries ih =>
    obtain ⟨n, old⟩ := entry
    rw [setEntry]
    split
    · rename_i heq
      rw [heq, List.lookup_cons_self]
    · rename_i hne
      rw [List.lookup_cons, beq_false_of_ne (Ne.symm hne)]
      exact ih

theorem lookup_setEntry_ne {name other : Text} (h : other ≠ name) (node : Node)
    (entries : List (Text × Node)) :
    (setEntry name node entries).lookup other = entries.lookup other := by
  induction entries with
  | nil => simp [setEntry, List.lookup_cons, beq_false_of_ne h]
  | cons entry entries ih =>
    obtain ⟨n, old⟩ := entry
    rw [setEntry]
    split
    · rename_i heq
      rw [List.lookup_cons, List.lookup_cons, heq, beq_false_of_ne h]
    · rw [List.lookup_cons, List.lookup_cons, ih]

/-! ## Growth -/

/-- The entries are files with the same content, links with the same target, or folders. -/
inductive Alike : Node → Node → Prop
  | file (content : Content) : Alike (file content) (file content)
  | folder (entries entries' : List (Text × Node)) : Alike (folder entries) (folder entries')
  | link (target : Text) : Alike (link target) (link target)

theorem Alike.refl (node : Node) : Alike node node := by
  cases node with
  | file content => exact .file content
  | folder entries => exact .folder entries entries
  | link target => exact .link target

theorem Alike.trans {a b c : Node} (h : Alike a b) (h' : Alike b c) : Alike a c := by
  cases h with
  | file content => exact h'
  | folder entries entries' =>
    cases h' with
    | folder _ entries'' => exact .folder entries entries''
  | link target => exact h'

theorem Alike.rel_refl (found : Option Node) : Option.Rel Alike found found := by
  cases found with
  | none => exact .none
  | some node => exact .some (.refl node)

/-- Everything in the first tree is in the second, too. -/
def Extends (root root' : Node) : Prop :=
  ∀ location node, root.at? location = some node →
    ∃ node', root'.at? location = some node' ∧ Alike node node'

theorem Extends.refl (root : Node) : Extends root root :=
  fun _ node h => ⟨node, h, .refl node⟩

theorem Extends.trans {a b c : Node} (h : Extends a b) (h' : Extends b c) : Extends a c := by
  intro location node hnode
  obtain ⟨node', hnode', halike⟩ := h location node hnode
  obtain ⟨node'', hnode'', halike'⟩ := h' location node' hnode'
  exact ⟨node'', hnode'', halike.trans halike'⟩

theorem Extends.folder {root root' : Node} (h : Extends root root') {location : List Text}
    {entries : List (Text × Node)} (hfolder : root.at? location = some (folder entries)) :
    ∃ entries', root'.at? location = some (folder entries') := by
  obtain ⟨node', hnode', halike⟩ := h location _ hfolder
  cases halike with
  | folder _ entries' => exact ⟨entries', hnode'⟩

theorem Extends.file {root root' : Node} (h : Extends root root') {location : List Text}
    {content : Content} (hfile : root.at? location = some (file content)) :
    root'.at? location = some (file content) := by
  obtain ⟨node', hnode', halike⟩ := h location _ hfile
  cases halike with
  | file _ => exact hnode'

/-- What was put somewhere is there. -/
theorem at?_put {root : Node} {location : List Text} {entries : List (Text × Node)}
    (h : root.at? location = some (folder entries)) (name : Text) (node : Node)
    (rest : List Text) :
    (root.put (location ++ [name]) node).at? (location ++ [name] ++ rest) = node.at? rest := by
  induction location generalizing root with
  | nil =>
    rw [at?_nil, Option.some.injEq] at h
    subst h
    rw [List.nil_append, List.singleton_append, put, put, at?_folder, lookup_setEntry_self,
      Option.bind_some]
  | cons first location ih =>
    obtain ⟨entries, child, rfl, hchild, hrest⟩ := exists_of_at?_cons h
    rw [List.cons_append, List.cons_append, put, at?_folder, lookup_setEntry_self,
      Option.bind_some, hchild]
    exact ih hrest

theorem at?_put_self {root : Node} {location : List Text} {entries : List (Text × Node)}
    (h : root.at? location = some (folder entries)) (name : Text) (node : Node) :
    (root.put (location ++ [name]) node).at? (location ++ [name]) = some node := by
  have hput := at?_put h name node []
  rwa [List.append_nil, at?_nil] at hput

/-- What is not below the place of a new entry stays, but for folders on the way to it, which have
one more entry. -/
theorem rel_at?_put {root : Node} {location : List Text} {entries : List (Text × Node)}
    (h : root.at? location = some (folder entries)) (name : Text) (node : Node)
    {other : List Text} (hother : ¬ location ++ [name] <+: other) :
    Option.Rel Alike (root.at? other) ((root.put (location ++ [name]) node).at? other) := by
  -- The induction follows both locations from the root, up to where they part.
  induction location generalizing root other with
  | nil =>
    rw [at?_nil, Option.some.injEq] at h
    subst h
    rw [List.nil_append, put]
    cases other with
    | nil => exact .some (.folder _ _)
    | cons next rest =>
      have hne : next ≠ name := by
        rintro rfl
        exact hother ⟨rest, rfl⟩
      rw [at?_folder, at?_folder, lookup_setEntry_ne hne]
      exact Alike.rel_refl _
  | cons first location ih =>
    obtain ⟨entries, child, rfl, hchild, hrest⟩ := exists_of_at?_cons h
    rw [List.cons_append, put]
    cases other with
    | nil => exact .some (.folder _ _)
    | cons next rest =>
      by_cases heq : next = first
      · subst heq
        rw [at?_folder, at?_folder, lookup_setEntry_self, hchild]
        refine ih hrest fun hprefix => hother ?_
        exact List.cons_prefix_cons.2 ⟨rfl, hprefix⟩
      · rw [at?_folder, at?_folder, lookup_setEntry_ne heq]
        exact Alike.rel_refl _

/-- A file that is elsewhere stays. -/
theorem at?_put_file {root : Node} {location other : List Text} {entries : List (Text × Node)}
    {content : Content} (hfolder : root.at? location = some (folder entries)) (name : Text)
    (node : Node) (hother : ¬ location ++ [name] <+: other)
    (hfile : root.at? other = some (.file content)) :
    (root.put (location ++ [name]) node).at? other = some (.file content) := by
  have hrel := rel_at?_put hfolder name node hother
  rw [hfile] at hrel
  generalize (root.put (location ++ [name]) node).at? other = found at hrel
  cases hrel with
  | some halike =>
    cases halike with
    | file _ => rfl

/-- A file that is elsewhere was there before. -/
theorem at?_of_put_file {root : Node} {location other : List Text} {entries : List (Text × Node)}
    {content : Content} (hfolder : root.at? location = some (folder entries)) (name : Text)
    (node : Node) (hother : ¬ location ++ [name] <+: other)
    (hfile : (root.put (location ++ [name]) node).at? other = some (.file content)) :
    root.at? other = some (.file content) := by
  have hrel := rel_at?_put hfolder name node hother
  rw [hfile] at hrel
  generalize root.at? other = found at hrel
  cases hrel with
  | some halike =>
    cases halike with
    | file _ => rfl

/-- A new entry extends a tree that has nothing in its place. -/
theorem Extends.put {root root' : Node} (h : Extends root root') {location : List Text}
    {entries : List (Text × Node)} (hfolder : root'.at? location = some (Node.folder entries))
    {name : Text} (hfree : root.at? (location ++ [name]) = none) (node : Node) :
    Extends root (root'.put (location ++ [name]) node) := by
  intro other found hfound
  obtain ⟨node', hnode', halike⟩ := h other found hfound
  have hother : ¬ location ++ [name] <+: other := by
    rintro ⟨rest, rfl⟩
    rw [at?_append_none hfree] at hfound
    cases hfound
  have hrel := rel_at?_put hfolder name node hother
  rw [hnode'] at hrel
  generalize hput : (root'.put (location ++ [name]) node).at? other = found' at hrel
  cases hrel with
  | some halike' => exact ⟨_, rfl, halike.trans halike'⟩

/-! ## Walks -/

theorem entry?_eq_ok {entries : List (Text × Node)} {name : Text} {found : Option Node} :
    entry? entries name = .ok found ↔
      Text.byteSize name ≤ maxName ∧ entries.lookup name = found := by
  unfold entry?
  split
  · rename_i hlong
    exact ⟨fun h => (nomatch h), fun h => absurd h.1 (by omega)⟩
  · rename_i hlong
    rw [Except.ok.injEq]
    exact ⟨fun h => ⟨by omega, h⟩, fun h => h.2⟩

section Step

variable {root : Node} {links : Nat} {here : List Text} {entries : List (Text × Node)}

theorem walk_skip (hfolder : root.at? here = some (folder entries)) {name : Text}
    (hname : Path.isName name = false) (rest : List Text) :
    root.walk links here (name :: rest) = root.walk links here rest := by
  rw [walk, hfolder]
  simp [hname]

theorem walk_up (hfolder : root.at? here = some (folder entries)) (rest : List Text) :
    root.walk links here (Path.up :: rest) = root.walk links here.dropLast rest := by
  have hname : Path.isName Path.up = true := by decide
  rw [walk, hfolder]
  simp [hname]

variable {name : Text} (hfolder : root.at? here = some (folder entries))
  (hname : Path.isName name = true) (hup : name ≠ Path.up)

include hfolder hname hup

theorem walk_refused {e : FileError} (hentry : entry? entries name = .error e) (rest : List Text) :
    root.walk links here (name :: rest) = .error e := by
  rw [walk, hfolder]
  simp [hname, hup, hentry]

theorem walk_absent (hentry : entry? entries name = .ok none) (rest : List Text) :
    root.walk links here (name :: rest) = .error .missing := by
  rw [walk, hfolder]
  simp [hname, hup, hentry]

theorem walk_link {target : Text} (hentry : entry? entries name = .ok (some (link target)))
    (rest : List Text) :
    root.walk (links + 1) here (name :: rest) =
      root.walk links (if target.head? = some '/' then [] else here)
        (Path.splitSlashes target ++ rest) := by
  rw [walk, hfolder]
  simp [hname, hup, hentry]

theorem walk_enter {node : Node} (hentry : entry? entries name = .ok (some node))
    (hnode : ∀ target, node ≠ link target) (rest : List Text) :
    root.walk links here (name :: rest) = root.walk links (here ++ [name]) rest := by
  rw [walk, hfolder]
  cases node with
  | file content => simp [hname, hup, hentry]
  | folder entries' => simp [hname, hup, hentry]
  | link target => exact absurd rfl (hnode target)

end Step

/-- The entries are files, folders, or links with the same target. -/
inductive SameKind : Node → Node → Prop
  | file (content content' : Content) : SameKind (file content) (file content')
  | folder (entries entries' : List (Text × Node)) : SameKind (folder entries) (folder entries')
  | link (target : Text) : SameKind (link target) (link target)

/-- Everything in the first tree is in the second, too, though files may have other texts there. -/
def Retains (root root' : Node) : Prop :=
  ∀ location node, root.at? location = some node →
    ∃ node', root'.at? location = some node' ∧ SameKind node node'

theorem Extends.retains {root root' : Node} (h : Extends root root') : Retains root root' := by
  intro location node hnode
  obtain ⟨node', hnode', halike⟩ := h location node hnode
  refine ⟨node', hnode', ?_⟩
  cases halike with
  | file content => exact .file content content
  | folder entries entries' => exact .folder entries entries'
  | link target => exact .link target

theorem Retains.folder {root root' : Node} (h : Retains root root') {location : List Text}
    {entries : List (Text × Node)} (hfolder : root.at? location = some (folder entries)) :
    ∃ entries', root'.at? location = some (Node.folder entries') := by
  obtain ⟨node', hnode', hkind⟩ := h location _ hfolder
  cases hkind with
  | folder _ entries' => exact ⟨entries', hnode'⟩

/-- An entry is there under its name in a tree that retains it. -/
theorem Retains.finds {root root' : Node} (h : Retains root root') {here : List Text}
    {entries : List (Text × Node)} (hfolder : root.at? here = some (Node.folder entries))
    {name : Text} {node : Node} (hentry : entry? entries name = .ok (some node)) :
    ∃ entries' node', root'.at? here = some (Node.folder entries') ∧
      entry? entries' name = .ok (some node') ∧ SameKind node node' := by
  obtain ⟨hsize, hlookup⟩ := entry?_eq_ok.1 hentry
  obtain ⟨entries', hfolder'⟩ := h.folder hfolder
  rw [← at?_concat hfolder] at hlookup
  obtain ⟨node', hnode', hkind⟩ := h _ _ hlookup
  rw [at?_concat hfolder'] at hnode'
  exact ⟨entries', node', hfolder', entry?_eq_ok.2 ⟨hsize, hnode'⟩, hkind⟩

/-- A walk ends in the same place in a tree that retains the old one. -/
theorem Retains.walk_eq {root root' : Node} (h : Retains root root') {links : Nat}
    {here names location : List Text} (hwalk : root.walk links here names = .ok location) :
    root'.walk links here names = .ok location := by
  fun_induction walk root links here names with
  | case1 links here => rw [walk, hwalk]
  | case2 links here name rest entries hfolder hname ih =>
    obtain ⟨entries', hfolder'⟩ := h.folder hfolder
    rw [walk_skip hfolder' (by simpa using hname)]
    exact ih hwalk
  | case3 links here rest entries hfolder _ ih =>
    obtain ⟨entries', hfolder'⟩ := h.folder hfolder
    rw [walk_up hfolder']
    exact ih hwalk
  | case4 | case5 | case6 | case9 => cases hwalk
  | case7 here name rest entries hfolder hname hup target hentry links start ih =>
    obtain ⟨entries', node', hfolder', hentry', hkind⟩ := h.finds hfolder hentry
    cases hkind with
    | link _ =>
      rw [walk_link hfolder' (by simpa using hname) hup hentry']
      exact ih hwalk
  | case8 links here name rest entries hfolder hname hup node hlink hentry ih =>
    obtain ⟨entries', node', hfolder', hentry', hkind⟩ := h.finds hfolder hentry
    have hlink' : ∀ target, node' ≠ link target := by
      rintro target rfl
      cases hkind with
      | link _ => exact hlink target rfl
    rw [walk_enter hfolder' (by simpa using hname) hup hentry' hlink']
    exact ih hwalk

/-- A walk ends in the same place in a tree that extends the old one. -/
theorem Extends.walk_eq {root root' : Node} (h : Extends root root') {links : Nat}
    {here names location : List Text} (hwalk : root.walk links here names = .ok location) :
    root'.walk links here names = .ok location :=
  h.retains.walk_eq hwalk

/-- A walk along two lists of names is a walk along the first and then along the second. Fewer links
may be left for the second part. -/
theorem walk_append (root : Node) (links : Nat) (here names : List Text) :
    (∃ e, root.walk links here names = .error e ∧
      ∀ rest, root.walk links here (names ++ rest) = .error e) ∨
    ∃ location links', root.walk links here names = .ok location ∧
      ∀ rest, root.walk links here (names ++ rest) = root.walk links' location rest := by
  fun_induction walk root links here names with
  | case1 links here => exact .inr ⟨here, links, rfl, fun rest => rfl⟩
  | case2 links here name rest entries hfolder hname ih =>
    simp only [List.cons_append, walk_skip hfolder (by simpa using hname)]
    exact ih
  | case3 links here rest entries hfolder _ ih =>
    simp only [List.cons_append, walk_up hfolder]
    exact ih
  | case4 links here name rest entries hfolder hname hup e hentry =>
    refine .inl ⟨e, rfl, fun more => ?_⟩
    rw [List.cons_append, walk, hfolder]
    simp [hname, hup, hentry]
  | case5 links here name rest entries hfolder hname hup hentry =>
    refine .inl ⟨.missing, rfl, fun more => ?_⟩
    rw [List.cons_append, walk_absent hfolder (by simpa using hname) hup hentry]
  | case6 here name rest entries hfolder hname hup target hentry =>
    refine .inl ⟨.linkLoop, rfl, fun more => ?_⟩
    rw [List.cons_append, walk, hfolder]
    simp [hname, hup, hentry]
  | case7 here name rest entries hfolder hname hup target hentry links start ih =>
    simp only [List.cons_append, walk_link hfolder (by simpa using hname) hup hentry,
      ← List.append_assoc]
    exact ih
  | case8 links here name rest entries hfolder hname hup node hlink hentry ih =>
    simp only [List.cons_append, walk_enter hfolder (by simpa using hname) hup hentry hlink]
    exact ih
  | case9 links here name rest hfolder =>
    refine .inl ⟨.notFolder, rfl, fun more => ?_⟩
    rw [List.cons_append, walk]
    split
    · rename_i entries hentries
      exact absurd hentries (hfolder entries)
    · rfl

/-! ## Names below a folder -/

/-- A name that a path can spell. -/
def Proper (name : Text) : Prop :=
  Path.isName name = true ∧ name ≠ Path.up

/-- A name that a path can spell and that is not too long. -/
def Spelled (name : Text) : Prop :=
  Proper name ∧ Text.byteSize name ≤ maxName

theorem Spelled.finds {name : Text} (h : Spelled name) {entries : List (Text × Node)}
    {found : Option Node} (hlookup : entries.lookup name = found) :
    entry? entries name = .ok found :=
  entry?_eq_ok.2 ⟨h.2, hlookup⟩

/-- Along the names of an entry that is no link, a walk leads to the entry. -/
theorem walk_eq {root node : Node} {links : Nat} {here names : List Text}
    (hnames : ∀ name ∈ names, Spelled name) (h : root.at? (here ++ names) = some node)
    (hnode : ∀ target, node ≠ link target) : root.walk links here names = .ok (here ++ names) := by
  induction names generalizing here with
  | nil => rw [walk, List.append_nil]
  | cons name rest ih =>
    have hspelled := hnames name List.mem_cons_self
    obtain ⟨hname, hup⟩ := hspelled.1
    obtain ⟨entries, child, hfolder, hchild, hrest⟩ := exists_folder_of_at? h
    have hlink : ∀ target, child ≠ link target := by
      rintro target rfl
      cases rest with
      | nil =>
        rw [at?_nil, Option.some.injEq] at hrest
        exact hnode target hrest.symm
      | cons _ _ => cases hrest
    rw [walk_enter hfolder hname hup (hspelled.finds hchild) hlink]
    have happend : here ++ name :: rest = here ++ [name] ++ rest := by
      rw [List.append_assoc, List.singleton_append]
    rw [happend] at h ⊢
    exact ih (fun other hother => hnames other (List.mem_cons_of_mem name hother)) h

/-- Everything that is there on the way is a folder. -/
def Open (root : Node) (here names : List Text) : Prop :=
  ∀ front node, front <+: names → root.at? (here ++ front) = some node →
    ∃ entries, node = folder entries

theorem Open.of_cons {root : Node} {here rest : List Text} {name : Text}
    (h : Open root here (name :: rest)) : Open root (here ++ [name]) rest := by
  intro front node hfront hnode
  refine h (name :: front) node (List.cons_prefix_cons.2 ⟨rfl, hfront⟩) ?_
  rwa [List.append_assoc, List.singleton_append] at hnode

/-- Where nothing but folders is on the way, a walk to something that is not there finds that it is
missing. -/
theorem walk_missing {root : Node} {links : Nat} {here names : List Text}
    {entries : List (Text × Node)} (hnames : ∀ name ∈ names, Spelled name)
    (hfolder : root.at? here = some (folder entries)) (hopen : Open root here names)
    (h : root.at? (here ++ names) = none) : root.walk links here names = .error .missing := by
  induction names generalizing here entries with
  | nil =>
    rw [List.append_nil, hfolder] at h
    cases h
  | cons name rest ih =>
    have hspelled := hnames name List.mem_cons_self
    obtain ⟨hname, hup⟩ := hspelled.1
    cases hlookup : entries.lookup name with
    | none => exact walk_absent hfolder hname hup (hspelled.finds hlookup) rest
    | some child =>
      have hchild := hlookup
      rw [← at?_concat hfolder] at hchild
      obtain ⟨entries', rfl⟩ := hopen [name] child (List.cons_prefix_cons.2 ⟨rfl, rest.nil_prefix⟩)
        hchild
      rw [walk_enter hfolder hname hup (hspelled.finds hlookup) fun _ => nofun]
      have happend : here ++ name :: rest = here ++ [name] ++ rest := by
        rw [List.append_assoc, List.singleton_append]
      rw [happend] at h
      exact ih (fun other hother => hnames other (List.mem_cons_of_mem name hother)) hchild
        hopen.of_cons h

/-! ## Regular trees -/

/-- A tree of folders and text files, in which every name can be spelled. -/
inductive Regular : Node → Prop
  | file (t : Text) : Regular (file (.text t))
  | folder {entries : List (Text × Node)} (hnames : ∀ entry ∈ entries, Proper entry.1)
      (hnodes : ∀ entry ∈ entries, Regular entry.2) : Regular (folder entries)

instance (name : Text) : Decidable (Proper name) :=
  inferInstanceAs (Decidable (_ ∧ _))

mutual

/-- Whether a tree is regular. -/
def isRegular : Node → Bool
  | file (.text _) => true
  | file (.bytes _) => false
  | folder entries => isRegularIn entries
  | link _ => false

/-- Whether all entries are regular and have proper names. -/
def isRegularIn : List (Text × Node) → Bool
  | [] => true
  | (name, node) :: rest => decide (Proper name) && isRegular node && isRegularIn rest

end

mutual

theorem regular_of_isRegular : ∀ node : Node, isRegular node = true → Regular node
  | file (.text t), _ => .file t
  | file (.bytes _), h => by cases h
  | folder entries, h => by
    have hentries := regular_of_isRegularIn entries h
    exact .folder (fun entry hentry => (hentries entry hentry).1)
      fun entry hentry => (hentries entry hentry).2
  | link _, h => by cases h

theorem regular_of_isRegularIn : ∀ entries : List (Text × Node), isRegularIn entries = true →
    ∀ entry ∈ entries, Proper entry.1 ∧ Regular entry.2
  | [], _ => fun _ hentry => absurd hentry List.not_mem_nil
  | (name, node) :: rest, h => by
    rw [isRegularIn, Bool.and_eq_true, Bool.and_eq_true, decide_eq_true_iff] at h
    intro entry hentry
    rcases List.mem_cons.1 hentry with rfl | hentry
    · exact ⟨h.1.1, regular_of_isRegular node h.1.2⟩
    · exact regular_of_isRegularIn rest h.2 entry hentry

end

theorem Regular.ne_link {node : Node} (h : Regular node) (target : Text) : node ≠ link target := by
  rintro rfl
  cases h

theorem mem_of_lookup {entries : List (Text × Node)} {name : Text} {node : Node}
    (h : entries.lookup name = some node) : (name, node) ∈ entries := by
  induction entries with
  | nil => cases h
  | cons entry entries ih =>
    obtain ⟨n, old⟩ := entry
    rw [List.lookup_cons] at h
    split at h
    · rename_i heq
      cases h
      rw [eq_of_beq heq]
      exact List.mem_cons_self
    · exact List.mem_cons_of_mem _ (ih h)

theorem Regular.at? {node found : Node} (h : Regular node) {names : List Text}
    (hfound : node.at? names = some found) : Regular found := by
  induction names generalizing node with
  | nil =>
    rw [at?_nil, Option.some.injEq] at hfound
    exact hfound ▸ h
  | cons name rest ih =>
    obtain ⟨entries, child, rfl, hchild, hrest⟩ := exists_of_at?_cons hfound
    cases h with
    | folder hnames hnodes => exact ih (hnodes _ (mem_of_lookup hchild)) hrest

/-- In a regular tree a walk along proper names leads to the entry with these names. -/
theorem Regular.of_walk {root node : Node} (h : Regular node) {links : Nat}
    {here names location : List Text} (hnode : root.at? here = some node)
    (hnames : ∀ name ∈ names, Proper name) (hwalk : root.walk links here names = .ok location) :
    location = here ++ names ∧ (∀ name ∈ names, Spelled name) ∧
      ∃ found, node.at? names = some found := by
  induction names generalizing here node with
  | nil =>
    rw [walk] at hwalk
    cases hwalk
    exact ⟨(List.append_nil _).symm, fun _ hname => absurd hname List.not_mem_nil, node,
      at?_nil node⟩
  | cons name rest ih =>
    have hproper := hnames name List.mem_cons_self
    cases h with
    | file t =>
      rw [walk, hnode] at hwalk
      cases hwalk
    | @folder entries hentries hnodes =>
      cases hentry : entry? entries name with
      | error e =>
        rw [walk, hnode] at hwalk
        simp [hproper.1, hproper.2, hentry] at hwalk
      | ok found =>
        cases found with
        | none =>
          rw [walk_absent hnode hproper.1 hproper.2 hentry] at hwalk
          cases hwalk
        | some child =>
          obtain ⟨hsize, hlookup⟩ := entry?_eq_ok.1 hentry
          have hregular : Regular child := hnodes _ (mem_of_lookup hlookup)
          rw [walk_enter hnode hproper.1 hproper.2 hentry hregular.ne_link] at hwalk
          obtain ⟨hlocation, hspelled, found, hfound⟩ := ih hregular
            ((at?_concat hnode name).trans hlookup)
            (fun other hother => hnames other (List.mem_cons_of_mem name hother)) hwalk
          refine ⟨?_, ?_, found, ?_⟩
          · rw [hlocation, List.append_assoc, List.singleton_append]
          · intro other hother
            rcases List.mem_cons.1 hother with rfl | hother
            · exact ⟨hproper, hsize⟩
            · exact hspelled other hother
          · rw [at?_folder, hlookup, Option.bind_some, hfound]

end CondAttrs.Node
