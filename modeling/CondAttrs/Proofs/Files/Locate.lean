import CondAttrs.Proofs.Files.World

/-!
# Where paths lead

A path for output may lead to a place at which there is nothing yet. It is *located* by following
its names and the links that are met, as if everything that is missing were a folder. As files and
folders come into a tree, and a file perhaps into the place of a link, every folder that a path
leads to is where the path was located in the tree as it was in the beginning: what is new on the
way is no link.

## Main definitions

* `Node.locate`, `World.landing`: where names lead to, and where a file at a path comes to be.
* `Node.Evolves`: a tree into which files and folders have come.
* `Node.Linkless`: a tree without links.

## Main statements

* `Node.Evolves.locate_eq`: walks in a tree that has evolved end where names were located at first.
* `Node.locate_clear`: without links on the way, names are located below where they start.
-/

namespace CondAttrs

namespace Node

/-! ## Locating names -/

/-- The location that some names lead to from a given one, links followed, whether there is anything
or not. There is none if links lead on and on. -/
def locate (root : Node) (links : Nat) (here names : List Text) : Option (List Text) :=
  match names with
  | [] => some here
  | name :: rest =>
    if !Path.isName name then locate root links here rest
    else if name = Path.up then locate root links here.dropLast rest
    else
      match root.at? (here ++ [name]) with
      | some (link target) =>
        match links with
        | 0 => none
        | links + 1 =>
          let start := if target.head? = some '/' then [] else here
          locate root links start (Path.splitSlashes target ++ rest)
      | _ => locate root links (here ++ [name]) rest
termination_by (links, names.length)

section Step

variable {root : Node} {links : Nat} {here : List Text} {name : Text}

theorem locate_nil : root.locate links here [] = some here := by
  rw [locate]

theorem locate_skip (hname : Path.isName name = false) (rest : List Text) :
    root.locate links here (name :: rest) = root.locate links here rest := by
  rw [locate]
  simp [hname]

theorem locate_up (rest : List Text) :
    root.locate links here (Path.up :: rest) = root.locate links here.dropLast rest := by
  have hname : Path.isName Path.up = true := by decide
  rw [locate]
  simp [hname]

variable (hname : Path.isName name = true) (hup : name ≠ Path.up)

include hname hup

theorem locate_link {target : Text} (hlink : root.at? (here ++ [name]) = some (link target))
    (rest : List Text) :
    root.locate (links + 1) here (name :: rest) =
      root.locate links (if target.head? = some '/' then [] else here)
        (Path.splitSlashes target ++ rest) := by
  rw [locate, hlink]
  simp [hname, hup]

theorem locate_enter (hlink : ∀ target, root.at? (here ++ [name]) ≠ some (link target))
    (rest : List Text) :
    root.locate links here (name :: rest) = root.locate links (here ++ [name]) rest := by
  rw [locate]
  simp [hname, hup]

end Step

/-- Names behind others are located from where those lead. Fewer links may be left for them. -/
theorem locate_append {root : Node} {links : Nat} {here names location : List Text}
    (h : root.locate links here names = some location) :
    ∃ links', ∀ rest, root.locate links here (names ++ rest) =
      root.locate links' location rest := by
  fun_induction locate root links here names with
  | case1 links here =>
    cases h
    exact ⟨links, fun rest => rfl⟩
  | case2 links here name rest hname ih =>
    simp only [List.cons_append, locate_skip (by simpa using hname)]
    exact ih h
  | case3 links here rest _ ih =>
    simp only [List.cons_append, locate_up]
    exact ih h
  | case4 => cases h
  | case5 here name rest hname hup target htarget links start ih =>
    simp only [List.cons_append, locate_link (by simpa using hname) hup htarget,
      ← List.append_assoc]
    exact ih h
  | case6 links here name rest hname hup hlink ih =>
    simp only [List.cons_append, locate_enter (by simpa using hname) hup hlink]
    exact ih h

/-- There is no link on the way from a location along some names. -/
def Clear (root : Node) (here names : List Text) : Prop :=
  ∀ front, front <+: names → ∀ target, root.at? (here ++ front) ≠ some (link target)

/-- Without links on the way, names are located below where they start. -/
theorem locate_clear {root : Node} {links : Nat} {here names : List Text}
    (hnames : ∀ name ∈ names, Proper name) (hclear : Clear root here names) :
    root.locate links here names = some (here ++ names) := by
  induction names generalizing here with
  | nil => rw [locate_nil, List.append_nil]
  | cons name rest ih =>
    obtain ⟨hname, hup⟩ := hnames name List.mem_cons_self
    have happend : ∀ more, here ++ name :: more = here ++ [name] ++ more := by
      intro more
      rw [List.append_assoc, List.singleton_append]
    have hrest : Clear root (here ++ [name]) rest := by
      intro front hfront target
      rw [← happend]
      exact hclear (name :: front) (List.cons_prefix_cons.2 ⟨rfl, hfront⟩) target
    have hlink := hclear [name] (List.cons_prefix_cons.2 ⟨rfl, rest.nil_prefix⟩)
    rw [locate_enter hname hup hlink, happend rest]
    exact ih (fun other hother => hnames other (List.mem_cons_of_mem name hother)) hrest

/-! ## Trees that evolve -/

/-- What may become of an entry, or of a free place: files and folders come into free places, files
get other contents and take the place of links, folders and all other links stay. -/
inductive Becomes : Option Node → Option Node → Prop
  | free : Becomes none none
  | newFile (content : Content) : Becomes none (some (file content))
  | newFolder (entries : List (Text × Node)) : Becomes none (some (folder entries))
  | file (content content' : Content) : Becomes (some (file content)) (some (file content'))
  | folder (entries entries' : List (Text × Node)) :
      Becomes (some (folder entries)) (some (folder entries'))
  | link (target : Text) : Becomes (some (link target)) (some (link target))
  | replaced (target : Text) (content : Content) :
      Becomes (some (link target)) (some (Node.file content))

theorem Becomes.of_rel {found found' : Option Node} (h : Option.Rel Alike found found') :
    Becomes found found' := by
  cases h with
  | none => exact .free
  | some halike =>
    cases halike with
    | file content => exact .file content content
    | folder entries entries' => exact .folder entries entries'
    | link target => exact .link target

theorem Becomes.trans {a b c : Option Node} (h : Becomes a b) (h' : Becomes b c) :
    Becomes a c := by
  cases h with
  | free => exact h'
  | newFile content =>
    cases h' with
    | file _ content' => exact .newFile content'
  | newFolder entries =>
    cases h' with
    | folder _ entries' => exact .newFolder entries'
  | file content content' =>
    cases h' with
    | file _ content'' => exact .file content content''
  | folder entries entries' =>
    cases h' with
    | folder _ entries'' => exact .folder entries entries''
  | link target => exact h'
  | replaced target content =>
    cases h' with
    | file _ content' => exact .replaced target content'

/-- A file can come into any place but that of a folder. -/
theorem Becomes.of_not_folder {found : Option Node}
    (h : ∀ entries, found ≠ some (Node.folder entries)) (content : Content) :
    Becomes found (some (Node.file content)) := by
  cases found with
  | none => exact .newFile content
  | some node =>
    cases node with
    | file old => exact .file old content
    | folder entries => exact absurd rfl (h entries)
    | link target => exact .replaced target content

/-- The second tree is the first one after files and folders have come into it. -/
def Evolves (root root' : Node) : Prop :=
  ∀ location, Becomes (root.at? location) (root'.at? location)

theorem Evolves.refl (root : Node) : Evolves root root :=
  fun _ => .of_rel (Alike.rel_refl _)

theorem Evolves.trans {a b c : Node} (h : Evolves a b) (h' : Evolves b c) : Evolves a c :=
  fun location => (h location).trans (h' location)

theorem Evolves.file {root root' : Node} (h : Evolves root root') {location : List Text}
    {content : Content} (hfile : root.at? location = some (file content)) :
    ∃ content', root'.at? location = some (Node.file content') := by
  have hbecomes := h location
  rw [hfile] at hbecomes
  generalize root'.at? location = found at hbecomes
  cases hbecomes with
  | file _ content' => exact ⟨content', rfl⟩

/-- A file or an empty folder comes into a place where no folder is. -/
theorem Evolves.put {root : Node} {location : List Text} {entries : List (Text × Node)}
    {name : Text} {node : Node} (hfolder : root.at? location = some (Node.folder entries))
    (hfree : ∀ entries', root.at? (location ++ [name]) ≠ some (Node.folder entries'))
    (hleaf : ∀ first rest, node.at? (first :: rest) = none)
    (hnode : Becomes (root.at? (location ++ [name])) (some node)) :
    Evolves root (root.put (location ++ [name]) node) := by
  intro other
  by_cases hother : location ++ [name] <+: other
  · obtain ⟨rest, rfl⟩ := hother
    rw [at?_put hfolder name node rest]
    cases rest with
    | nil =>
      rw [List.append_nil, at?_nil]
      exact hnode
    | cons first rest =>
      have hnone : root.at? (location ++ [name] ++ first :: rest) = none := by
        cases hold : root.at? (location ++ [name] ++ first :: rest) with
        | none => rfl
        | some found =>
          obtain ⟨entries', -, hentries', -⟩ := exists_folder_of_at? hold
          exact absurd hentries' (hfree entries')
      rw [hleaf, hnone]
      exact .free
  · exact .of_rel (rel_at?_put hfolder name node hother)

/-- A walk that ends in a folder starts in one. -/
theorem exists_folder_of_walk {root : Node} {links : Nat} {here names location : List Text}
    {entries : List (Text × Node)} (hwalk : root.walk links here names = .ok location)
    (hfolder : root.at? location = some (folder entries)) :
    ∃ entries', root.at? here = some (folder entries') := by
  cases names with
  | nil =>
    rw [walk] at hwalk
    cases hwalk
    exact ⟨entries, hfolder⟩
  | cons name rest =>
    rw [walk] at hwalk
    split at hwalk
    · rename_i entries' hhere
      exact ⟨entries', hhere⟩
    · cases hwalk

/-- A walk that ends in a folder ends where the names were located before the tree has evolved. -/
theorem Evolves.locate_eq {root root' : Node} (h : Evolves root root') {links : Nat}
    {here names location : List Text} {entries : List (Text × Node)}
    (hwalk : root'.walk links here names = .ok location)
    (hfolder : root'.at? location = some (Node.folder entries)) :
    root.locate links here names = some location := by
  fun_induction walk root' links here names with
  | case1 links here =>
    cases hwalk
    exact locate_nil
  | case2 links here name rest entries _ hname ih =>
    rw [locate_skip (by simpa using hname)]
    exact ih hwalk
  | case3 links here rest entries _ _ ih =>
    rw [locate_up]
    exact ih hwalk
  | case4 | case5 | case6 | case9 => cases hwalk
  | case7 here name rest entries hhere hname hup target hentry links start ih =>
    have hbecomes := h (here ++ [name])
    rw [at?_concat hhere, (entry?_eq_ok.1 hentry).2] at hbecomes
    generalize hold : root.at? (here ++ [name]) = found at hbecomes
    cases hbecomes with
    | link _ =>
      rw [locate_link (by simpa using hname) hup hold]
      exact ih hwalk
  | case8 links here name rest entries hhere hname hup node hlink hentry ih =>
    -- The walk goes on to a folder, so what it enters here is no file in the place of a link.
    obtain ⟨entries', hentries'⟩ := exists_folder_of_walk hwalk hfolder
    have hbecomes := h (here ++ [name])
    rw [hentries'] at hbecomes
    rw [locate_enter (by simpa using hname) hup]
    · exact ih hwalk
    · intro target htarget
      rw [htarget] at hbecomes
      cases hbecomes

/-! ## Trees without links -/

/-- There is no link in the tree. -/
def Linkless (root : Node) : Prop :=
  ∀ location target, root.at? location ≠ some (link target)

theorem Regular.linkless {root : Node} (h : Regular root) : Linkless root := fun _ target hlink =>
  (h.at? hlink).ne_link target rfl

theorem Evolves.linkless {root root' : Node} (h : Evolves root root') (hlinkless : Linkless root) :
    Linkless root' := by
  intro location target hlink
  have hbecomes := h location
  rw [hlink] at hbecomes
  generalize hold : root.at? location = found at hbecomes
  cases hbecomes with
  | link _ => exact hlinkless location target hold

/-- Where there are no links, everything stays, but for the texts of files. -/
theorem Evolves.retains {root root' : Node} (h : Evolves root root') (hlinkless : Linkless root) :
    Retains root root' := by
  intro location node hnode
  have hbecomes := h location
  rw [hnode] at hbecomes
  generalize root'.at? location = found at hbecomes
  cases hbecomes with
  | file content content' => exact ⟨_, rfl, .file content content'⟩
  | folder entries entries' => exact ⟨_, rfl, .folder entries entries'⟩
  | link target => exact absurd hnode (hlinkless location target)
  | replaced target content => exact absurd hnode (hlinkless location target)

end Node

namespace World

open Node

/-- Where a path leads to, whether there is anything or not. -/
def locate (w : World) (path : Path) : Option (List Text) :=
  w.root.locate maxLinks (w.start path) path.names

/-- Where a file at a path comes to be: under the last name of the path, in the folder that the
names before it lead to. -/
def landing (w : World) (path : Path) : Option (List Text) :=
  (w.locate path.parent).map (· ++ [path.last])

/-- Without links on the way from one path to another, a file at the other comes to be below the
place that the first one leads to. -/
theorem landing_append {w : World} {out : Path} {place names : List Text}
    (hplace : w.locate out = some place) (hne : names ≠ [])
    (hnames : ∀ name ∈ names, Proper name) (hclear : Clear w.root place names.dropLast) :
    w.landing (out.append names) = some (place ++ names) := by
  obtain ⟨links, hlinks⟩ := locate_append hplace
  obtain ⟨front, name, rfl⟩ : ∃ front name, names = front ++ [name] :=
    ⟨_, _, (List.dropLast_concat_getLast hne).symm⟩
  rw [List.dropLast_concat] at hclear
  have hfront : w.locate (out.append front) = some (place ++ front) := by
    refine (hlinks front).trans (locate_clear (fun other hother => ?_) hclear)
    exact hnames other (List.mem_append_left _ hother)
  rw [landing, Path.parent_append, Path.last_append, hfront, Option.map_some, List.append_assoc]

end World

end CondAttrs
