import CondAttrs.Proofs.Files.Tree

/-!
# Paths below a folder

What a machine answers about the paths that go on from a folder, and how it changes there, said in
terms of locations: a path that leads to a folder, and a list of names that can be spelled, lead to
the location of the folder followed by the names, unless a link is met.

## Main definitions

* `World.Leads`: a path leads to a folder at a location.

## Main statements

* `World.takes_append`: with a path the machine takes the paths on the way to it.
* `World.Leads.find_eq`: what a path below a folder leads to.
* `World.Leads.withFolder_eq`, `World.Leads.withFile_eq`: new folders and files.
-/

namespace CondAttrs

open Node

/-- A sequence succeeds if both of its parts do. -/
theorem exists_of_bind {ε α β : Type} {x : Except ε α} {f : α → Except ε β} {b : β}
    (h : (x >>= f) = .ok b) : ∃ a, x = .ok a ∧ f a = .ok b := by
  cases x with
  | error e => cases h
  | ok a => exact ⟨a, rfl, h⟩

/-! ## Paths -/

namespace Path

theorem append_nil (p : Path) : p.append [] = p := by
  rw [append, List.append_nil]

theorem append_append (p : Path) (first second : List Text) :
    (p.append first).append second = p.append (first ++ second) := by
  rw [append, append, append, List.append_assoc]

theorem names_append (p : Path) (names : List Text) :
    (p.append names).names = p.names ++ names := rfl

theorem child_eq (p : Path) (name : Text) : p.child name = p.append [name] := rfl

theorem parent_append (p : Path) (names : List Text) (name : Text) :
    (p.append (names ++ [name])).parent = p.append names := by
  rw [parent, append, append, ← List.append_assoc, List.dropLast_concat]

theorem last_append (p : Path) (names : List Text) (name : Text) :
    (p.append (names ++ [name])).last = name := by
  rw [last, append, ← List.append_assoc, List.getLast?_concat, Option.getD_some]

theorem below_append (p : Path) (names : List Text) : (p.append names).below p = names :=
  List.drop_left

theorem parent_append_last {p : Path} (h : p.names ≠ []) : p.parent.append [p.last] = p := by
  rw [parent, append, last, List.getLast?_eq_some_getLast h, Option.getD_some]
  simp only [List.dropLast_concat_getLast h]

end Path

/-! ## Sizes -/

namespace Text

theorem foldl_utf8Size (t : Text) (n : Nat) :
    t.foldl (fun n c => n + c.utf8Size) n = n + byteSize t := by
  induction t generalizing n with
  | nil => rfl
  | cons c t ih =>
    rw [byteSize, List.foldl_cons, List.foldl_cons, ih, ih, Nat.zero_add, Nat.add_assoc]

theorem byteSize_append (t u : Text) : byteSize (t ++ u) = byteSize t + byteSize u := by
  rw [byteSize, List.foldl_append, foldl_utf8Size u]
  rfl

/-- A joined text starts with the texts in front, joined. -/
theorem join_append (separator : Text) {first : List Text} (h : first ≠ []) (second : List Text) :
    ∃ rest, join separator (first ++ second) = join separator first ++ rest := by
  induction first with
  | nil => exact absurd rfl h
  | cons t first ih =>
    cases first with
    | nil =>
      cases second with
      | nil => exact ⟨[], (List.append_nil _).symm⟩
      | cons u second => exact ⟨separator ++ join separator (u :: second), List.append_assoc ..⟩
    | cons u first =>
      obtain ⟨rest, hrest⟩ := ih (List.cons_ne_nil u first)
      refine ⟨rest, ?_⟩
      have hjoin : join separator (t :: u :: (first ++ second)) =
          t ++ separator ++ join separator (u :: first ++ second) := rfl
      rw [List.cons_append, List.cons_append, hjoin, hrest, ← List.append_assoc]
      rfl

end Text

namespace World

/-- With a path the machine takes the paths on the way to it. -/
theorem takes_append {path : Path} {names rest : List Text} (hne : path.names ++ names ≠ [])
    (h : takes (path.append (names ++ rest)) = .ok ()) : takes (path.append names) = .ok () := by
  have htext : ∀ more, (path.append (names ++ more)).text =
      path.root ++ Text.join "/" (path.names ++ names ++ more) := by
    intro more
    have hfull : (path.names ++ names ++ more).isEmpty = false := by
      rw [List.isEmpty_eq_false_iff]
      exact List.append_ne_nil_of_left_ne_nil hne more
    rw [Path.text, Path.append, ← List.append_assoc]
    simp only [hfull, Bool.and_false]
    rfl
  have hlong := htext rest
  have hshort := htext []
  rw [List.append_nil, List.append_nil] at hshort
  obtain ⟨more, hmore⟩ := Text.join_append "/" hne rest
  rw [hmore, ← List.append_assoc] at hlong
  unfold takes at h ⊢
  split at h
  · cases h
  rename_i hnames
  split at h
  · cases h
  rename_i hsize
  rw [hlong, Text.byteSize_append] at hsize
  have hnames' : ¬ ((path.append names).names.any fun name => name.contains '\x00') = true := by
    intro hany
    refine hnames ?_
    obtain ⟨name, hmem, hzero⟩ := List.any_eq_true.1 hany
    refine List.any_eq_true.2 ⟨name, ?_, hzero⟩
    rw [Path.append] at hmem ⊢
    rw [← List.append_assoc]
    exact List.mem_append_left rest hmem
  rw [if_neg hnames', if_neg]
  rw [hshort]
  omega

/-! ## Looking up -/

theorem start_append (w : World) (path : Path) (names : List Text) :
    w.start (path.append names) = w.start path := rfl

/-- The path leads to the folder at the location. -/
structure Leads (w : World) (path : Path) (location : List Text) : Prop where
  walk : w.root.walk maxLinks (w.start path) path.names = .ok location
  folder : ∃ entries, w.root.at? location = some (.folder entries)

variable {w w' : World} {path : Path} {location names : List Text} {name : Text}

theorem Leads.extends (h : w.Leads path location) (hroot : Extends w.root w'.root)
    (hhome : w'.home = w.home) : w'.Leads path location := by
  obtain ⟨entries, hfolder⟩ := h.folder
  refine ⟨?_, hroot.folder hfolder⟩
  rw [start, hhome]
  exact hroot.walk_eq h.walk

/-- A walk along the path and more names goes on from the folder. -/
theorem Leads.walk_append (h : w.Leads path location) :
    ∃ links, ∀ names, w.root.walk maxLinks (w.start path) (path.names ++ names) =
      w.root.walk links location names := by
  rcases Node.walk_append w.root maxLinks (w.start path) path.names with
    ⟨e, herror, -⟩ | ⟨location', links, hok, hrest⟩
  · rw [h.walk] at herror
    cases herror
  · rw [h.walk] at hok
    cases hok
    exact ⟨links, hrest⟩

theorem resolve_eq_ok : w.resolve path = .ok location ↔
    takes path = .ok () ∧ w.root.walk maxLinks (w.start path) path.names = .ok location := by
  constructor
  · intro h
    rw [resolve] at h
    obtain ⟨_, htakes, hwalk⟩ := exists_of_bind h
    exact ⟨htakes, hwalk⟩
  · rintro ⟨htakes, hwalk⟩
    rw [resolve, htakes]
    exact hwalk

/-- A path that leads to something can be followed. -/
theorem exists_of_find {node : Node} (h : w.find path = .ok node) :
    takes path = .ok () ∧ ∃ location,
      w.root.walk maxLinks (w.start path) path.names = .ok location ∧
        w.root.at? location = some node := by
  rw [find] at h
  obtain ⟨location, hresolve, h⟩ := exists_of_bind h
  obtain ⟨htakes, hwalk⟩ := resolve_eq_ok.1 hresolve
  refine ⟨htakes, location, hwalk, ?_⟩
  split at h
  · rename_i hnode
    cases h
    exact hnode
  · cases h

theorem exists_of_kind? {kind : EntryKind} (h : w.kind? path = .ok (some kind)) :
    ∃ node, w.find path = .ok node ∧ (kind = .file → ∃ content, node = .file content) ∧
      (kind = .folder → ∃ entries, node = .folder entries) := by
  cases hfind : w.find path with
  | error e =>
    rw [kind?, hfind] at h
    simp only [bind, Except.bind, orAbsent] at h
    split at h <;> cases h
  | ok node =>
    rw [kind?, hfind] at h
    refine ⟨node, rfl, ?_⟩
    cases node with
    | file content =>
      cases h
      exact ⟨fun _ => ⟨content, rfl⟩, nofun⟩
    | folder entries =>
      cases h
      exact ⟨nofun, fun _ => ⟨entries, rfl⟩⟩
    | link target => cases h

/-- A path that leads to a folder. -/
theorem leads_of_kind? (h : w.kind? path = .ok (some .folder)) :
    takes path = .ok () ∧ ∃ location, w.Leads path location := by
  obtain ⟨node, hfind, -, hfolder⟩ := exists_of_kind? h
  obtain ⟨entries, rfl⟩ := hfolder rfl
  obtain ⟨htakes, location, hwalk, hnode⟩ := exists_of_find hfind
  exact ⟨htakes, location, hwalk, entries, hnode⟩

theorem find_eq {node : Node} (htakes : takes path = .ok ())
    (hwalk : w.root.walk maxLinks (w.start path) path.names = .ok location)
    (hnode : w.root.at? location = some node) : w.find path = .ok node := by
  simp only [find, resolve, htakes, hwalk, hnode, bind, Except.bind]
  rfl

theorem find_of_resolve {node : Node} (h : w.resolve path = .ok location)
    (hnode : w.root.at? location = some node) : w.find path = .ok node := by
  obtain ⟨htakes, hwalk⟩ := resolve_eq_ok.1 h
  exact find_eq htakes hwalk hnode

/-- A path leads to the same place in a tree that retains the old one. -/
theorem resolve_retains (h : w.resolve path = .ok location) (hroot : Retains w.root w'.root)
    (hhome : w'.home = w.home) : w'.resolve path = .ok location := by
  obtain ⟨htakes, hwalk⟩ := resolve_eq_ok.1 h
  refine resolve_eq_ok.2 ⟨htakes, ?_⟩
  rw [start, hhome]
  exact hroot.walk_eq hwalk

/-- The last name of a path that leads to a file has a meaning. -/
theorem isName_of_find {content : Content} (h : w.find (path.append [name]) = .ok (.file content)) :
    Path.isName name = true := by
  obtain ⟨-, location, hwalk, hnode⟩ := exists_of_find h
  rw [Path.names_append, start_append] at hwalk
  rcases Node.walk_append w.root maxLinks (w.start path) path.names with
    ⟨e, -, hrest⟩ | ⟨place, links, -, hrest⟩
  · rw [hrest] at hwalk
    cases hwalk
  rw [hrest] at hwalk
  cases hname : Path.isName name with
  | true => rfl
  | false =>
    -- The walk would stay in the folder.
    rw [Node.walk] at hwalk
    split at hwalk
    · rename_i entries hfolder
      rw [hname, Bool.not_false, if_pos rfl, Node.walk] at hwalk
      cases hwalk
      rw [hfolder] at hnode
      cases hnode
    · cases hwalk

theorem kind?_error {e : FileError} (htakes : takes path = .ok ())
    (hwalk : w.root.walk maxLinks (w.start path) path.names = .error e) :
    w.kind? path = if e.isAbsence then .ok none else .error e := by
  simp only [kind?, find, resolve, htakes, hwalk, bind, Except.bind, orAbsent]

theorem kind?_folder {entries : List (Text × Node)} (h : w.find path = .ok (.folder entries)) :
    w.kind? path = .ok (some .folder) := by
  rw [kind?, h]
  rfl

theorem kind?_file {content : Content} (h : w.find path = .ok (.file content)) :
    w.kind? path = .ok (some .file) := by
  rw [kind?, h]
  rfl

theorem read_text {t : Text} (h : w.find path = .ok (.file (.text t))) : w.read path = .ok t := by
  rw [read, h]
  rfl

theorem read_congr {path' : Path} (h : w.resolve path = w.resolve path') :
    w.read path = w.read path' := by
  rw [read, read, find, find, h]

section Below

variable (h : w.Leads path location) (hnames : ∀ name ∈ names, Spelled name)

include h hnames

/-- What a path below a folder leads to, if it is no link. -/
theorem Leads.find_eq {node : Node} (htakes : takes (path.append names) = .ok ())
    (hnode : w.root.at? (location ++ names) = some node)
    (hlink : ∀ target, node ≠ .link target) : w.find (path.append names) = .ok node := by
  obtain ⟨links, hwalk⟩ := h.walk_append
  exact World.find_eq htakes ((hwalk names).trans (walk_eq hnames hnode hlink)) hnode

/-- A name in a folder below. -/
theorem Leads.resolveLast_eq {entries : List (Text × Node)} (hname : Spelled name)
    (htakes : takes (path.append (names ++ [name])) = .ok ())
    (hfolder : w.root.at? (location ++ names) = some (.folder entries)) :
    w.resolveLast (path.append (names ++ [name])) =
      .ok (location ++ names, entries.lookup name) := by
  obtain ⟨links, hwalk⟩ := h.walk_append
  have hparent : w.root.walk maxLinks (w.start path) (path.names ++ names) =
      .ok (location ++ names) := (hwalk names).trans (walk_eq hnames hfolder fun _ => nofun)
  have hentry : entry? entries name = .ok (entries.lookup name) := hname.finds rfl
  simp only [resolveLast, htakes, Path.parent_append, Path.last_append, Path.names_append,
    start_append, hparent, hfolder, hentry, bind, Except.bind]
  rfl

/-- A name in a folder that is missing. -/
theorem Leads.resolveLast_missing (htakes : takes (path.append (names ++ [name])) = .ok ())
    (hopen : Open w.root location names)
    (hmissing : w.root.at? (location ++ names) = none) :
    w.resolveLast (path.append (names ++ [name])) = .error .missing := by
  obtain ⟨links, hwalk⟩ := h.walk_append
  obtain ⟨entries, hfolder⟩ := h.folder
  have hparent : w.root.walk maxLinks (w.start path) (path.names ++ names) = .error .missing :=
    (hwalk names).trans (walk_missing hnames hfolder hopen hmissing)
  simp only [resolveLast, htakes, Path.parent_append, Path.names_append, start_append, hparent,
    bind, Except.bind]

end Below

/-! ## Changes -/

theorem hasLast_append (path : Path) (names : List Text) (hname : Proper name) :
    hasLast (path.append (names ++ [name])) = true := by
  rw [hasLast, Path.last_append, Path.names_append, ← List.append_assoc]
  simp [hname.2]

/-- A path that leads to a folder and has a last name finds something under that name. -/
theorem exists_of_leads (h : w.Leads path location) (htakes : takes path = .ok ())
    (hpath : ∀ name ∈ path.names, Path.isName name = true) (hlast : hasLast path = true) :
    ∃ parent node, w.resolveLast path = .ok (parent, some node) := by
  rw [hasLast, Bool.and_eq_true, decide_eq_true_iff, decide_eq_true_iff] at hlast
  obtain ⟨hne, hup⟩ := hlast
  have hname : Path.isName path.last = true := by
    rw [Path.last, List.getLast?_eq_some_getLast hne, Option.getD_some]
    exact hpath _ (List.getLast_mem hne)
  have hwalk := h.walk
  rw [← Path.parent_append_last hne, Path.names_append, start_append] at hwalk
  have hstart : w.start path.parent = w.start path := rfl
  rw [hstart] at hwalk
  -- The walk goes to the folder above and from there into the entry with the last name.
  rcases Node.walk_append w.root maxLinks (w.start path) path.parent.names with
    ⟨e, -, hrest⟩ | ⟨parent, links, hparent, hrest⟩
  · rw [hrest] at hwalk
    cases hwalk
  rw [hrest] at hwalk
  cases hnode : w.root.at? parent with
  | none =>
    rw [Node.walk, hnode] at hwalk
    cases hwalk
  | some node =>
    cases node with
    | file content =>
      rw [Node.walk, hnode] at hwalk
      cases hwalk
    | link target =>
      rw [Node.walk, hnode] at hwalk
      cases hwalk
    | folder entries =>
      cases hentry : entry? entries path.last with
      | error e =>
        rw [Node.walk, hnode] at hwalk
        simp [hname, hup, hentry] at hwalk
      | ok found =>
        cases found with
        | none =>
          rw [walk_absent hnode hname hup hentry] at hwalk
          cases hwalk
        | some found =>
          refine ⟨parent, found, ?_⟩
          simp only [resolveLast, htakes, hparent, hnode, hentry, bind, Except.bind]
          rfl

/-- A folder cannot be made where one is. -/
theorem withFolder_occupied (h : w.kind? path = .ok (some .folder))
    (hpath : ∀ name ∈ path.names, Path.isName name = true) :
    w.withFolder path = .error .occupied := by
  obtain ⟨htakes, location, hleads⟩ := leads_of_kind? h
  obtain ⟨entries, hfolder⟩ := hleads.folder
  cases hlast : hasLast path with
  | false =>
    simp only [withFolder, hlast, find_eq htakes hleads.walk hfolder, Bool.not_false, if_true,
      bind, Except.bind]
    rfl
  | true =>
    obtain ⟨parent, node, hnode⟩ := exists_of_leads hleads htakes hpath hlast
    simp only [withFolder, hlast, hnode, Bool.not_true, Bool.false_eq_true, if_false, bind,
      Except.bind]
    rfl

section Below

variable (h : w.Leads path location) (hnames : ∀ name ∈ names, Spelled name)
  (hname : Spelled name) (htakes : takes (path.append (names ++ [name])) = .ok ())

include h hnames hname htakes

theorem Leads.withFolder_eq {entries : List (Text × Node)}
    (hfolder : w.root.at? (location ++ names) = some (.folder entries))
    (hfree : w.root.at? (location ++ names ++ [name]) = none) :
    w.withFolder (path.append (names ++ [name])) =
      .ok (w.put (location ++ names ++ [name]) (.folder [])) := by
  rw [at?_concat hfolder] at hfree
  simp only [withFolder, hasLast_append path names hname.1, Bool.not_true, Bool.false_eq_true,
    if_false, h.resolveLast_eq hnames hname htakes hfolder, hfree, Path.last_append, bind,
    Except.bind]
  rfl

theorem Leads.withFolder_missing (hopen : Open w.root location names)
    (hmissing : w.root.at? (location ++ names) = none) :
    w.withFolder (path.append (names ++ [name])) = .error .missing := by
  simp only [withFolder, hasLast_append path names hname.1, Bool.not_true, Bool.false_eq_true,
    if_false, h.resolveLast_missing hnames htakes hopen hmissing, bind, Except.bind]

/-- A file can be put where no folder is. -/
theorem Leads.withFile_eq {entries : List (Text × Node)}
    (hfolder : w.root.at? (location ++ names) = some (.folder entries))
    (hfree : ∀ entries', w.root.at? (location ++ names ++ [name]) ≠ some (.folder entries'))
    (content : Content) :
    w.withFile (path.append (names ++ [name])) content =
      .ok (w.put (location ++ names ++ [name]) (.file content)) := by
  rw [at?_concat hfolder] at hfree
  simp only [withFile, hasLast_append path names hname.1, Bool.not_true, Bool.false_eq_true,
    if_false, h.resolveLast_eq hnames hname htakes hfolder, Path.last_append, bind, Except.bind]
  rfl

/-- Where only folders are on the way, a path is no link unless a link stands there. -/
theorem Leads.isLink_eq (hopen : Open w.root location names)
    (hlink : ∀ target, w.root.at? (location ++ names ++ [name]) ≠ some (.link target)) :
    w.isLink (path.append (names ++ [name])) = .ok false := by
  have hlast := hasLast_append path names hname.1
  cases hfolder : w.root.at? (location ++ names) with
  | none =>
    simp only [isLink, hlast, h.resolveLast_missing hnames htakes hopen hfolder, Bool.not_true,
      Bool.false_eq_true, if_false, bind, Except.bind]
    rfl
  | some node =>
    obtain ⟨entries, rfl⟩ := hopen names node (List.prefix_refl names) hfolder
    rw [at?_concat hfolder] at hlink
    simp only [isLink, hlast, h.resolveLast_eq hnames hname htakes hfolder, Bool.not_true,
      Bool.false_eq_true, if_false, bind, Except.bind]
    split
    · rename_i heq
      simp only [Prod.mk.injEq] at heq
      exact absurd heq.2 (hlink _)
    · rfl

end Below

end World

end CondAttrs
