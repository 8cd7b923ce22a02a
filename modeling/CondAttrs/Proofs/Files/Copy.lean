import CondAttrs.Files.Store
import CondAttrs.Proofs.Files.World
import Mathlib.Data.List.Induction

/-!
# Writing copies into a free place

Files are written below a path at which there is nothing yet, each to where it is in a given
*source*. What is written then never meets anything but folders of the source on its way, and in its
place a file of the source or nothing. So every file is written, folders being made where they are
missing, and the tree as it was before stays as it is.

## Main definitions

* `World.Spot`: a path at which there is nothing, in an existing folder.
* `World.Copying`: all there is below the spot is the outline of a part of the source, and all that
  was there before is still there.

## Main statements

* `World.Copying.makeFolders`: the folders of the source can be made.
* `World.Copying.write`: the files of the source can be written.
-/

namespace CondAttrs

open Node

/-! ## Operations of the machine -/

/-- The first part of a sequence is run, and then the second. -/
theorem World.bind_apply {α β : Type} {x : StateM World α} {f : α → StateM World β} {w w' : World}
    {a : α} (h : x w = (a, w')) : (x >>= f) w = f a w' := by
  show (let (a, w') := x w; f a w') = f a w'
  rw [h]

namespace Store

/-- Making a folder makes it, or finds it there. -/
def Made (w : World) (path : Path) (w' : World) : Prop :=
  w.withFolder path = .ok w' ∨
    w.withFolder path = .error .occupied ∧ w.kind? path = .ok (some .folder) ∧ w' = w

variable {w w' : World} {path : Path}

theorem unlessFolder_apply (h : w.kind? path = .ok (some .folder)) (e : FileError) :
    unlessFolder (m := StateM World) path e w = (.ok (), w) := by
  have hkind : Host.kind? (m := StateM World) path w = (.ok (some .folder), w) := by
    rw [← h]
    rfl
  rw [unlessFolder, World.bind_apply hkind]
  rfl

theorem hostMakeFolder_ok (h : w.withFolder path = .ok w') :
    Host.makeFolder (m := StateM World) path w = (.ok (), w') := by
  show World.change (fun w => w.withFolder path) w = _
  rw [World.change, h]

theorem hostMakeFolder_error {e : FileError} (h : w.withFolder path = .error e) :
    Host.makeFolder (m := StateM World) path w = (.error e, w) := by
  show World.change (fun w => w.withFolder path) w = _
  rw [World.change, h]

theorem Made.makeFolder (h : Made w path w') :
    makeFolder (m := StateM World) path w = (.ok (), w') := by
  rcases h with hmade | ⟨hoccupied, hkind, rfl⟩
  · rw [Store.makeFolder, World.bind_apply (hostMakeFolder_ok hmade)]
    rfl
  · rw [Store.makeFolder, World.bind_apply (hostMakeFolder_error hoccupied)]
    exact unlessFolder_apply hkind .occupied

theorem Made.makeFolders (h : Made w path w') :
    makeFolders (m := StateM World) path w = (.ok (), w') := by
  rcases h with hmade | ⟨hoccupied, hkind, rfl⟩
  · rw [Store.makeFolders, World.bind_apply (hostMakeFolder_ok hmade)]
    rfl
  · rw [Store.makeFolders, World.bind_apply (hostMakeFolder_error hoccupied)]
    exact unlessFolder_apply hkind .occupied

/-- A missing folder is made first. -/
theorem makeFolders_missing {w'' : World} (h : w.withFolder path = .error .missing)
    (hne : path.names ≠ [])
    (hparent : Store.makeFolders (m := StateM World) path.parent w = (.ok (), w'))
    (hmade : Made w' path w'') :
    Store.makeFolders (m := StateM World) path w = (.ok (), w'') := by
  rw [Store.makeFolders, World.bind_apply (hostMakeFolder_error h)]
  simp only [dif_neg hne]
  rw [World.bind_apply hparent]
  exact hmade.makeFolder

/-- A file is written if its path is no link, the folders above it can be made and it can be put
there. -/
theorem write_done {w₁ w₂ : World} {text : Text} (hlink : w.isLink path = .ok false)
    (hmake : makeFolders (m := StateM World) path.parent w = (.ok (), w₁))
    (hfile : w₁.withFile path (.text text) = .ok w₂) :
    write (m := StateM World) path text w = (.done, w₂) := by
  have hasked : Host.isLink (m := StateM World) path w = (.ok false, w) := congrArg (·, w) hlink
  have hreplaced : Host.replace (m := StateM World) path text w₁ = (.ok (), w₂) := by
    show World.change (fun w => w.withFile _ _) w₁ = _
    rw [World.change, hfile]
  rw [write, World.bind_apply hasked]
  simp only []
  rw [World.bind_apply hmake]
  simp only []
  rw [World.bind_apply hreplaced]
  rfl

end Store

namespace World

/-! ## Outlines -/

/-- The entries are files, or folders. -/
inductive Mirrors : Node → Node → Prop
  | file (content content' : Content) : Mirrors (.file content) (.file content')
  | folder (entries entries' : List (Text × Node)) : Mirrors (.folder entries) (.folder entries')

theorem Mirrors.alike {a b c : Node} (h : Mirrors a b) (h' : Alike b c) : Mirrors a c := by
  cases h with
  | file content content' =>
    cases h' with
    | file _ => exact .file content content'
  | folder entries entries' =>
    cases h' with
    | folder _ entries'' => exact .folder entries entries''

/-- A folder that holds one thing. -/
def frame (name : Text) (source : Node) : Node :=
  .folder [(name, source)]

theorem frame_at? {name first : Text} {source node : Node} {rest : List Text} :
    (frame name source).at? (first :: rest) = some node ↔
      first = name ∧ source.at? rest = some node := by
  rw [frame, at?_folder, List.lookup_cons]
  by_cases hfirst : first = name
  · rw [hfirst, beq_self_eq_true]
    exact ⟨fun h => ⟨rfl, h⟩, fun h => h.2⟩
  · rw [beq_false_of_ne hfirst]
    exact ⟨fun h => (nomatch h), fun h => absurd h.1 hfirst⟩

theorem root_put (w : World) (location : List Text) (node : Node) :
    (w.put location node).root = w.root.put location node := rfl

/-! ## Free places -/

/-- The path has a folder above it, at the given location, and there is nothing at the path. -/
structure Spot (w : World) (out : Path) (above : List Text) : Prop where
  nonempty : out.names ≠ []
  plain : ∀ name ∈ out.names, Path.isName name = true
  spelled : Spelled out.last
  takes : takes out.parent = .ok ()
  leads : w.Leads out.parent above
  free : w.root.at? (above ++ [out.last]) = none

/-- There is nothing at the path, not even a link, and there is a folder above it. -/
structure Vacant (w : World) (out : Path) : Prop where
  parent : w.kind? out.parent = .ok (some .folder)
  absent : w.kind? out = .ok none
  noLink : w.isLink out = .ok false

theorem Vacant.nonempty {w : World} {out : Path} (h : w.Vacant out) : out.names ≠ [] := by
  intro hnil
  have hparent : out.parent = out := by rw [Path.parent, hnil, List.dropLast_nil, ← hnil]
  have habsent := h.absent
  rw [← hparent, h.parent] at habsent
  cases habsent

theorem Vacant.find_ne {w : World} {out : Path} (h : w.Vacant out) {node : Node}
    (hnode : ∀ target, node ≠ .link target) : w.find out ≠ .ok node := by
  intro hfind
  have hkind := h.absent
  cases node with
  | file content =>
    rw [kind?_file hfind] at hkind
    cases hkind
  | folder entries =>
    rw [kind?_folder hfind] at hkind
    cases hkind
  | link target => exact hnode target rfl

/-- The last name of a vacant path that the machine takes could be the name of an entry. -/
theorem Vacant.spelled {w : World} {out : Path} {above : List Text} (h : w.Vacant out)
    (hplain : ∀ name ∈ out.names, Path.isName name = true) (htakes : World.takes out = .ok ())
    (hleads : w.Leads out.parent above) : Spelled out.last := by
  obtain ⟨entries, hfolder⟩ := hleads.folder
  obtain ⟨links, hwalk⟩ := hleads.walk_append
  have hname : Path.isName out.last = true := by
    rw [Path.last, List.getLast?_eq_some_getLast h.nonempty, Option.getD_some]
    exact hplain _ (List.getLast_mem h.nonempty)
  have hwalk' := hwalk [out.last]
  rw [← Path.names_append, ← start_append w out.parent [out.last],
    Path.parent_append_last h.nonempty] at hwalk'
  -- The path would lead to the folder above, if it went up.
  have hup : out.last ≠ Path.up := by
    intro hlast
    obtain ⟨entries', hfolder'⟩ := exists_folder_dropLast hfolder
    rw [hlast, walk_up hfolder, Node.walk] at hwalk'
    have hne : ∀ target, folder entries' ≠ link target := by
      intro target htarget
      cases htarget
    exact h.find_ne hne (find_eq htakes hwalk' hfolder')
  refine ⟨⟨hname, hup⟩, ?_⟩
  by_contra hlong
  have hentry : entry? entries out.last = .error .tooLong := by
    unfold entry?
    exact if_pos (by omega)
  have hkind := kind?_error htakes (hwalk'.trans (walk_refused hfolder hname hup hentry []))
  rw [h.absent] at hkind
  cases hkind

/-- All there is below the spot is the outline of a part of the source, and everything that was
there in the first world is still there in the second. -/
structure Copying (w : World) (out : Path) (above : List Text) (source : Node) (w' : World) :
    Prop where
  home : w'.home = w.home
  grown : Extends w.root w'.root
  below : ∀ names node', w'.root.at? (above ++ out.last :: names) = some node' →
    ∃ node, source.at? names = some node ∧ Mirrors node node'

variable {w w' : World} {out : Path} {above : List Text} {source : Node}

/-- Paths from the spot on are paths from the folder above it. -/
theorem Spot.append_eq (h : w.Spot out above) (names : List Text) :
    out.append names = out.parent.append (out.last :: names) := by
  rw [← List.singleton_append, ← Path.append_append, Path.parent_append_last h.nonempty]

/-- With a path below the folder above the spot the machine takes the path in front of it. -/
theorem Spot.takes_front (h : w.Spot out above) {front : List Text} {name : Text}
    (htakes : World.takes (out.parent.append (front ++ [name])) = .ok ()) :
    World.takes (out.parent.append front) = .ok () := by
  by_cases hne : out.parent.names ++ front = []
  · rw [(List.append_eq_nil_iff.1 hne).2, Path.append_nil]
    exact h.takes
  · exact takes_append hne htakes

theorem Spot.plain_parent (h : w.Spot out above) :
    ∀ name ∈ out.parent.names, Path.isName name = true := fun name hname =>
  h.plain name ((List.dropLast_sublist _).mem hname)

namespace Copying

variable (h : Copying w out above source w') (hspot : w.Spot out above)

include h

theorem leads (hspot : w.Spot out above) : w'.Leads out.parent above :=
  hspot.leads.extends h.grown h.home

/-- What is there below the folder above the spot, along names of the source. -/
theorem mirrors (hspot : w.Spot out above) {names : List Text} {node node' : Node}
    (hnode : (frame out.last source).at? names = some node)
    (hnode' : w'.root.at? (above ++ names) = some node') : Mirrors node node' := by
  cases names with
  | nil =>
    rw [at?_nil, Option.some.injEq] at hnode
    obtain ⟨entries, hfolder⟩ := (h.leads hspot).folder
    rw [List.append_nil, hfolder, Option.some.injEq] at hnode'
    rw [← hnode, ← hnode']
    exact .folder _ _
  | cons first rest =>
    obtain ⟨rfl, hsource⟩ := frame_at?.1 hnode
    obtain ⟨node₁, hnode₁, hmirrors⟩ := h.below rest node' hnode'
    rw [hsource, Option.some.injEq] at hnode₁
    rwa [hnode₁]

/-- On the way to a place of the source there are folders only. -/
theorem isOpen (hspot : w.Spot out above) {names rest : List Text} {name : Text} {node : Node}
    (hnode : (frame out.last source).at? (names ++ name :: rest) = some node) :
    Open w'.root above names := by
  rintro front node' ⟨tail, rfl⟩ hnode'
  obtain ⟨first, more, hmore⟩ : ∃ first more, tail ++ name :: rest = first :: more := by
    cases tail with
    | nil => exact ⟨name, rest, rfl⟩
    | cons first tail => exact ⟨first, _, rfl⟩
  rw [List.append_assoc, hmore] at hnode
  obtain ⟨entries, child, hfolder, -, -⟩ := exists_folder_of_at? hnode
  cases h.mirrors hspot hfolder hnode' with
  | folder _ entries' => exact ⟨entries', rfl⟩

/-- A file or an empty folder is put where the source has a file or a folder. -/
theorem put (hspot : w.Spot out above) {names : List Text} {name : Text} {node node' : Node}
    {entries : List (Text × Node)}
    (hnode : (frame out.last source).at? (names ++ [name]) = some node)
    (hmirrors : Mirrors node node') (hleaf : ∀ first rest, node'.at? (first :: rest) = none)
    (hfolder : w'.root.at? (above ++ names) = some (.folder entries)) :
    Copying w out above source (w'.put (above ++ names ++ [name]) node') where
  home := h.home
  grown := by
    refine h.grown.put hfolder ?_ node'
    obtain ⟨rest, hrest⟩ : ∃ rest, names ++ [name] = out.last :: rest := by
      cases names with
      | nil => exact ⟨[], by rw [(frame_at?.1 hnode).1]; rfl⟩
      | cons first names => exact ⟨names ++ [name], by rw [(frame_at?.1 hnode).1]; rfl⟩
    have hfree := at?_append_none hspot.free rest
    rwa [List.append_assoc, List.singleton_append, ← hrest, ← List.append_assoc] at hfree
  below other found hfound := by
    by_cases hother : above ++ names ++ [name] <+: above ++ out.last :: other
    · obtain ⟨rest, hrest⟩ := hother
      have hput := at?_put hfolder name node' rest
      rw [hrest] at hput
      rw [root_put, hput] at hfound
      cases rest with
      | nil =>
        rw [at?_nil, Option.some.injEq] at hfound
        rw [List.append_nil, List.append_assoc] at hrest
        rw [List.append_cancel_left hrest] at hnode
        exact ⟨node, (frame_at?.1 hnode).2, hfound ▸ hmirrors⟩
      | cons first rest =>
        rw [hleaf] at hfound
        cases hfound
    · have hrel := rel_at?_put hfolder name node' hother
      rw [root_put] at hfound
      rw [hfound] at hrel
      generalize hold : w'.root.at? (above ++ out.last :: other) = old at hrel
      cases hrel with
      | some halike =>
        obtain ⟨node₁, hnode₁, hmirrors₁⟩ := h.below other _ hold
        exact ⟨node₁, hnode₁, hmirrors₁.alike halike⟩

/-- A folder of the source is made in a folder that is there, or it is there already. -/
theorem made (hspot : w.Spot out above) {names : List Text} {name : Text}
    {entries entries' : List (Text × Node)}
    (hnode : (frame out.last source).at? (names ++ [name]) = some (.folder entries))
    (hnames : ∀ name ∈ names, Spelled name) (hname : Spelled name)
    (htakes : World.takes (out.parent.append (names ++ [name])) = .ok ())
    (hfolder : w'.root.at? (above ++ names) = some (.folder entries')) :
    ∃ w'', Store.Made w' (out.parent.append (names ++ [name])) w'' ∧
      Copying w out above source w'' ∧ w'' = { w' with root := w''.root } ∧
      Extends w'.root w''.root ∧
      ∃ entries, w''.root.at? (above ++ (names ++ [name])) = some (.folder entries) := by
  have hleads := h.leads hspot
  have hall : ∀ other ∈ names ++ [name], Spelled other :=
    List.forall_mem_append.2 ⟨hnames, List.forall_mem_singleton.2 hname⟩
  cases hthere : w'.root.at? (above ++ (names ++ [name])) with
  | some node' =>
    cases h.mirrors hspot hnode hthere with
    | folder _ entries'' =>
      have hkind := kind?_folder (hleads.find_eq hall htakes hthere fun _ => nofun)
      have hplain : ∀ other ∈ (out.parent.append (names ++ [name])).names,
          Path.isName other = true :=
        List.forall_mem_append.2 ⟨hspot.plain_parent, fun other hother => (hall other hother).1.1⟩
      exact ⟨w', .inr ⟨withFolder_occupied hkind hplain, hkind, rfl⟩, h, rfl, .refl _, entries'',
        hthere⟩
  | none =>
    rw [← List.append_assoc] at hthere
    refine ⟨w'.put (above ++ names ++ [name]) (.folder []),
      .inl (hleads.withFolder_eq hnames hname htakes hfolder hthere),
      h.put hspot hnode (.folder _ _) (fun _ _ => rfl) hfolder, rfl,
      (Extends.refl _).put hfolder hthere _, [], ?_⟩
    rw [root_put, ← List.append_assoc]
    exact at?_put_self hfolder name _

/-- The folders of the source can be made. -/
theorem makeFolders (hspot : w.Spot out above) {names : List Text}
    {entries : List (Text × Node)}
    (hnode : (frame out.last source).at? names = some (.folder entries))
    (hnames : ∀ name ∈ names, Spelled name)
    (htakes : World.takes (out.parent.append names) = .ok ()) :
    ∃ w'', Store.makeFolders (m := StateM World) (out.parent.append names) w' = (.ok (), w'') ∧
      Copying w out above source w'' ∧ w'' = { w' with root := w''.root } ∧
      Extends w'.root w''.root ∧
      ∃ entries, w''.root.at? (above ++ names) = some (.folder entries) := by
  have hleads := h.leads hspot
  -- From the folder above the spot down to the folder in question.
  induction names using List.reverseRecOn generalizing entries with
  | nil =>
    obtain ⟨entries', hfolder⟩ := hleads.folder
    rw [Path.append_nil] at htakes ⊢
    have hkind := kind?_folder (World.find_eq htakes hleads.walk hfolder)
    have hmade : Store.Made w' out.parent w' :=
      .inr ⟨withFolder_occupied hkind hspot.plain_parent, hkind, rfl⟩
    rw [List.append_nil]
    exact ⟨w', hmade.makeFolders, h, rfl, .refl _, entries', hfolder⟩
  | append_singleton names name ih =>
    have hfront : ∀ other ∈ names, Spelled other := fun other hother =>
      hnames other (List.mem_append_left _ hother)
    have hname : Spelled name := hnames name (List.mem_append_right _ List.mem_cons_self)
    cases hfolder : w'.root.at? (above ++ names) with
    | some node' =>
      obtain ⟨entries', rfl⟩ :=
        h.isOpen hspot hnode names node' (List.prefix_refl names) hfolder
      obtain ⟨w'', hmade, hrest⟩ := h.made hspot hnode hfront hname htakes hfolder
      exact ⟨w'', hmade.makeFolders, hrest⟩
    | none =>
      obtain ⟨entries₀, _, hnode₀, -, -⟩ := exists_folder_of_at? hnode
      obtain ⟨w₁, hmake₁, h₁, hw₁, hextends₁, entries₁, hfolder₁⟩ :=
        ih hnode₀ hfront (hspot.takes_front htakes)
      obtain ⟨w₂, hmade, h₂, hw₂, hextends₂, hfolder₂⟩ :=
        h₁.made hspot hnode hfront hname htakes hfolder₁
      have hmissing := hleads.withFolder_missing hfront hname htakes (h.isOpen hspot hnode) hfolder
      refine ⟨w₂, ?_, h₂, ?_, hextends₁.trans hextends₂, hfolder₂⟩
      · refine Store.makeFolders_missing hmissing ?_ ?_ hmade
        · rw [Path.names_append, ← List.append_assoc]
          exact List.append_ne_nil_of_right_ne_nil _ (List.cons_ne_nil _ _)
        · rwa [Path.parent_append]
      · rw [hw₂, hw₁]

/-- The text of a file that has been written. -/
theorem read_eq (hspot : w.Spot out above) {names : List Text} {t : Text}
    (hnames : ∀ name ∈ names, Spelled name) (htakes : World.takes (out.append names) = .ok ())
    (hnode : w'.root.at? (above ++ out.last :: names) = some (.file (.text t))) :
    w'.read (out.append names) = .ok t := by
  have hpath := hspot.append_eq names
  have hall : ∀ name ∈ out.last :: names, Spelled name := List.forall_mem_cons.2
    ⟨hspot.spelled, hnames⟩
  rw [hpath] at htakes ⊢
  exact read_text ((h.leads hspot).find_eq hall htakes hnode fun _ => nofun)

/-- The files of the source can be written. All other files that have been written stay. -/
theorem write (hspot : w.Spot out above) {names : List Text} {content : Content}
    (hnode : source.at? names = some (.file content)) (hnames : ∀ name ∈ names, Spelled name)
    (htakes : World.takes (out.append names) = .ok ()) (text : Text) :
    ∃ w'', Store.write (m := StateM World) (out.append names) text w' = (.done, w'') ∧
      Copying w out above source w'' ∧ w'' = { w' with root := w''.root } ∧
      w''.root.at? (above ++ out.last :: names) = some (.file (.text text)) ∧
      ∀ other content content', source.at? other = some (.file content) → other ≠ names →
        w'.root.at? (above ++ out.last :: other) = some (.file content') →
        w''.root.at? (above ++ out.last :: other) = some (.file content') := by
  -- The last name of the path, which may be that of the spot, and what is in front of it.
  obtain ⟨front, name, hsplit⟩ : ∃ front name, out.last :: names = front ++ [name] :=
    ⟨_, _, (List.dropLast_concat_getLast (List.cons_ne_nil out.last names)).symm⟩
  have hpath : out.append names = out.parent.append (front ++ [name]) := by
    rw [← hsplit, hspot.append_eq]
  have hframe : (frame out.last source).at? (front ++ [name]) = some (.file content) := by
    rw [← hsplit]
    exact frame_at?.2 ⟨rfl, hnode⟩
  have hall : ∀ other ∈ front ++ [name], Spelled other := by
    rw [← hsplit]
    exact List.forall_mem_cons.2 ⟨hspot.spelled, hnames⟩
  obtain ⟨hfront, hlast⟩ := List.forall_mem_append.1 hall
  have hname := List.forall_mem_singleton.1 hlast
  rw [hpath] at htakes ⊢
  rw [hsplit]
  have hlink : w'.isLink (out.parent.append (front ++ [name])) = .ok false := by
    refine (h.leads hspot).isLink_eq hfront hname htakes (h.isOpen hspot hframe) ?_
    intro target htarget
    rw [List.append_assoc] at htarget
    cases h.mirrors hspot hframe htarget
  obtain ⟨entries, _, hfolder, -, -⟩ := exists_folder_of_at? hframe
  obtain ⟨w₁, hmake, h₁, hw₁, hextends, entries₁, hfolder₁⟩ :=
    h.makeFolders hspot hfolder hfront (hspot.takes_front htakes)
  have hfile := (h₁.leads hspot).withFile_eq hfront hname htakes hfolder₁ (by
    intro entries' hentries'
    rw [List.append_assoc] at hentries'
    cases h₁.mirrors hspot hframe hentries') (.text text)
  refine ⟨w₁.put (above ++ front ++ [name]) (.file (.text text)), ?_,
    h₁.put hspot hframe (.file _ _) (fun _ _ => rfl) hfolder₁, by rw [hw₁]; rfl, ?_, ?_⟩
  · rw [← Path.parent_append out.parent front name] at hmake
    exact Store.write_done hlink hmake hfile
  · rw [root_put, ← List.append_assoc]
    exact at?_put_self hfolder₁ name _
  · intro other content₁ content' hother hne hthere
    have hapart : ¬ above ++ front ++ [name] <+: above ++ out.last :: other := by
      rintro ⟨rest, hrest⟩
      rw [List.append_assoc, List.append_assoc, ← List.append_assoc front, ← hsplit] at hrest
      obtain rfl : names ++ rest = other := (List.cons.inj (List.append_cancel_left hrest)).2
      cases rest with
      | nil => exact hne (List.append_nil names)
      | cons first rest =>
        rw [at?_append, hnode] at hother
        cases hother
    exact at?_put_file hfolder₁ name _ hapart (hextends.file hthere)

end Copying

end World

end CondAttrs
