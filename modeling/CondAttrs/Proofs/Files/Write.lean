import CondAttrs.Proofs.Files.Copy
import CondAttrs.Proofs.Files.Locate

/-!
# Writing files anywhere

Whatever there is in a tree, writing a file changes no file but the one at the place where a file at
the path comes to be. The folders above it are made first, and they are made in free places only.
If the file is written, it has the given text.

Being about any number of files that are written one after the other, this is said in comparison
with the world as it was in the beginning.

## Main definitions

* `World.Keeps`: a computation keeps a property of the world, however it ends.
* `World.Confined`: files have changed in given places only, and no folder is gone.
* `World.Seat`: a file can be put at a path.

## Main statements

* `World.Confined.keeps_write`: files that are written are confined to where they come to be.
* `World.Confined.exists_written`: a file that has been written has its text, and no other file has
  changed.
-/

namespace CondAttrs

open Node

namespace World

/-! ## What computations keep -/

/-- The computation keeps a property of the world, however it ends. -/
def Keeps {α : Type} (I : World → Prop) (x : StateM World α) : Prop :=
  ∀ w, I w → I (x w).2

section

variable {α β ε : Type} {I : World → Prop}

theorem keeps_pure (a : α) : Keeps I (pure a) := fun _ hw => hw

theorem Keeps.bind {x : StateM World α} {f : α → StateM World β} (hx : Keeps I x)
    (hf : ∀ a, Keeps I (f a)) : Keeps I (x >>= f) := by
  intro w hw
  obtain ⟨a, w', hrun⟩ : ∃ a w', x w = (a, w') := ⟨_, _, rfl⟩
  have hw' := hx w hw
  rw [hrun] at hw'
  rw [bind_apply hrun]
  exact hf a w' hw'

/-- A computation that can fail keeps what its parts keep. -/
theorem Keeps.bind_step {x : ExceptT ε (StateM World) α} {f : α → ExceptT ε (StateM World) β}
    (hx : Keeps I x.run) (hf : ∀ a, Keeps I (f a).run) : Keeps I (x >>= f).run := by
  show Keeps I (x.run >>= ExceptT.bindCont f)
  refine Keeps.bind hx fun result => ?_
  cases result with
  | ok a => exact hf a
  | error e => exact keeps_pure _

/-- A change that is made keeps what it keeps, and one that fails changes nothing. -/
theorem keeps_change {f : World → Except FileError World}
    (h : ∀ w w', I w → f w = .ok w' → I w') : Keeps I (change f) := by
  intro w hw
  rw [change]
  cases hf : f w with
  | ok w' => exact h w w' hw hf
  | error e => exact hw

end

end World

namespace Store

variable {I : World → Prop}

theorem keeps_unlessFolder (path : Path) (e : FileError) :
    World.Keeps I (unlessFolder (m := StateM World) path e) := by
  refine World.Keeps.bind (fun _ hw => hw) fun kind => ?_
  split <;> exact World.keeps_pure _

section

variable (hmake : ∀ path, World.Keeps I (Host.makeFolder (m := StateM World) path))

include hmake

theorem keeps_makeFolder (path : Path) : World.Keeps I (makeFolder (m := StateM World) path) := by
  refine (hmake path).bind fun result => ?_
  split
  · exact World.keeps_pure _
  · exact World.keeps_pure _
  · exact World.keeps_pure _
  · exact keeps_unlessFolder path _

/-- Making a folder and those above it keeps what making each of them keeps. -/
theorem keeps_makeFolders (path : Path) :
    World.Keeps I (makeFolders (m := StateM World) path) := by
  -- The folders above are those of a path with fewer names.
  induction hlength : path.names.length generalizing path with
  | zero =>
    have hnil : path.names = [] := List.length_eq_zero_iff.1 hlength
    rw [makeFolders]
    refine (hmake path).bind fun result => ?_
    split
    · exact World.keeps_pure _
    · rw [dif_pos hnil]
      exact World.keeps_pure _
    · exact World.keeps_pure _
    · exact keeps_unlessFolder path _
  | succ n ih =>
    have hne : path.names ≠ [] := List.ne_nil_of_length_eq_add_one hlength
    have hparent : path.parent.names.length = n := by
      rw [Path.parent, List.length_dropLast, hlength, Nat.add_sub_cancel]
    rw [makeFolders]
    refine (hmake path).bind fun result => ?_
    split
    · exact World.keeps_pure _
    · rw [dif_neg hne]
      refine (ih path.parent hparent).bind fun made => ?_
      split
      · exact keeps_makeFolder hmake path
      · exact World.keeps_pure _
    · exact World.keeps_pure _
    · exact keeps_unlessFolder path _

/-- Writing a file keeps what making folders and putting the file in its place keep. -/
theorem keeps_write {path : Path} {text : Text}
    (hreplace : World.Keeps I (Host.replace (m := StateM World) path text)) :
    World.Keeps I (write (m := StateM World) path text) := by
  refine World.Keeps.bind (fun _ hw => hw) fun link => ?_
  split
  · exact World.keeps_pure _
  · exact World.keeps_pure _
  · refine (keeps_makeFolders hmake path.parent).bind fun made => ?_
    split
    · exact World.keeps_pure _
    · refine hreplace.bind fun replaced => ?_
      split
      · exact World.keeps_pure _
      · exact World.keeps_pure _

end

/-- Where a failure of the machine ends the writing, a file that is written has met none. -/
theorem exists_of_bind_done {α : Type} {x : StateM World (Except FileError α)}
    {f : Except FileError α → StateM World Written} {w w' : World}
    (hf : ∀ e, f (.error e) = pure (.ofError e)) (h : (x >>= f) w = (.done, w')) :
    ∃ a w₁, x w = (.ok a, w₁) ∧ f (.ok a) w₁ = (.done, w') := by
  obtain ⟨result, w₁, hx⟩ : ∃ result w₁, x w = (result, w₁) := ⟨_, _, rfl⟩
  rw [World.bind_apply hx] at h
  cases result with
  | ok a => exact ⟨a, w₁, hx, h⟩
  | error e =>
    rw [hf] at h
    cases e <;> cases h

/-- A file that is written is put in its place after the folders above it have been made. -/
theorem exists_of_write {w w' : World} {path : Path} {text : Text}
    (h : write (m := StateM World) path text w = (.done, w')) :
    ∃ w₁, makeFolders (m := StateM World) path.parent w = (.ok (), w₁) ∧
      w₁.withFile path (.text text) = .ok w' := by
  rw [write] at h
  obtain ⟨link, w₀, hlink, h⟩ := exists_of_bind_done (fun _ => rfl) h
  obtain rfl : w = w₀ := (Prod.mk.inj hlink).2
  cases link with
  | true => cases h
  | false =>
    obtain ⟨_, w₁, hmade, h⟩ := exists_of_bind_done (fun _ => rfl) h
    obtain ⟨_, w₂, hreplaced, h⟩ := exists_of_bind_done (fun _ => rfl) h
    obtain rfl : w₂ = w' := (Prod.mk.inj h).2
    refine ⟨w₁, hmade, ?_⟩
    have hchange : World.change (fun w => w.withFile path (.text text)) w₁ = (.ok (), w₂) :=
      hreplaced
    rw [World.change] at hchange
    split at hchange
    · rename_i hfile
      cases hchange
      exact hfile
    · cases hchange

end Store

namespace World

/-! ## New entries -/

variable {w w' : World} {path : Path} {location : List Text}

/-- A path whose last name is looked up in a folder. -/
theorem exists_of_resolveLast {found : Option Node}
    (h : w.resolveLast path = .ok (location, found)) :
    takes path = .ok () ∧ w.Leads path.parent location ∧
      Text.byteSize path.last ≤ maxName ∧ w.root.at? (location ++ [path.last]) = found := by
  rw [resolveLast] at h
  obtain ⟨_, htakes, h⟩ := exists_of_bind h
  obtain ⟨parent, hwalk, h⟩ := exists_of_bind h
  split at h
  · rename_i entries hfolder
    obtain ⟨_, hentry, h⟩ := exists_of_bind h
    cases h
    obtain ⟨hsize, hlookup⟩ := entry?_eq_ok.1 hentry
    exact ⟨htakes, ⟨hwalk, entries, hfolder⟩, hsize, (at?_concat hfolder _).trans hlookup⟩
  · cases h

/-- A new folder comes into a free place of a folder. -/
theorem exists_of_withFolder (h : w.withFolder path = .ok w') :
    ∃ location, w.Leads path.parent location ∧ w.root.at? (location ++ [path.last]) = none ∧
      w' = w.put (location ++ [path.last]) (.folder []) := by
  rw [withFolder] at h
  split at h
  · obtain ⟨_, -, h⟩ := exists_of_bind h
    cases h
  obtain ⟨⟨location, found⟩, hlast, h⟩ := exists_of_bind h
  obtain ⟨-, hleads, -, hfound⟩ := exists_of_resolveLast hlast
  cases found with
  | some node => cases h
  | none =>
    cases h
    exact ⟨location, hleads, hfound, rfl⟩

/-- A file can be put at the path: its last name can be that of an entry of the folder at the
location, and is not that of a folder in it. -/
structure Seat (w : World) (path : Path) (location : List Text) : Prop where
  named : hasLast path = true
  takes : takes path = .ok ()
  leads : w.Leads path.parent location
  short : Text.byteSize path.last ≤ maxName
  free : ∀ entries, w.root.at? (location ++ [path.last]) ≠ some (.folder entries)

theorem exists_of_withFile {content : Content} (h : w.withFile path content = .ok w') :
    ∃ location, w.Seat path location ∧
      w' = w.put (location ++ [path.last]) (.file content) := by
  rw [withFile] at h
  split at h
  · cases h
  rename_i hnamed
  obtain ⟨⟨location, found⟩, hlast, h⟩ := exists_of_bind h
  obtain ⟨htakes, hleads, hshort, hfound⟩ := exists_of_resolveLast hlast
  have hseat : (∀ entries, found ≠ some (.folder entries)) → w.Seat path location := fun hfree =>
    ⟨by simpa using hnamed, htakes, hleads, hshort, by rwa [hfound]⟩
  split at h
  · cases h
  · rename_i place hfree heq
    cases heq
    cases h
    exact ⟨location, hseat fun entries hentries => hfree entries (by rw [hentries]), rfl⟩

/-! ## Files that have changed -/

/-- Files are new or have changed at locations with the given property only, and nothing but links
has given way to them. -/
structure Confined (w : World) (P : List Text → Prop) (w' : World) : Prop where
  home : w'.home = w.home
  evolves : Evolves w.root w'.root
  files : ∀ location content, w'.root.at? location = some (.file content) →
    w.root.at? location = some (.file content) ∨ P location

variable {P : List Text → Prop}

theorem Confined.refl (w : World) (P : List Text → Prop) : Confined w P w :=
  ⟨rfl, .refl w.root, fun _ _ hfile => .inl hfile⟩

/-- What is printed changes no file. -/
theorem Confined.printed (h : Confined w P w') (output errors : Text) :
    Confined w P { w' with output := output, errors := errors } :=
  ⟨h.home, h.evolves, h.files⟩

/-- A file or an empty folder comes into a place where no folder is. -/
theorem Confined.put (h : Confined w P w') {entries : List (Text × Node)} {name : Text}
    {node : Node} (hfolder : w'.root.at? location = some (.folder entries))
    (hfree : ∀ entries', w'.root.at? (location ++ [name]) ≠ some (.folder entries'))
    (hleaf : ∀ first rest, node.at? (first :: rest) = none)
    (hnode : Becomes (w'.root.at? (location ++ [name])) (some node))
    (hP : ∀ content, node = .file content → P (location ++ [name])) :
    Confined w P (w'.put (location ++ [name]) node) where
  home := h.home
  evolves := h.evolves.trans (Evolves.put hfolder hfree hleaf hnode)
  files other content hfile := by
    rw [root_put] at hfile
    by_cases hother : location ++ [name] <+: other
    · obtain ⟨rest, rfl⟩ := hother
      rw [at?_put hfolder] at hfile
      cases rest with
      | nil =>
        rw [at?_nil, Option.some.injEq] at hfile
        rw [List.append_nil]
        exact .inr (hP content hfile)
      | cons first rest =>
        rw [hleaf] at hfile
        cases hfile
    · exact h.files other content (at?_of_put_file hfolder name node hother hfile)

theorem Confined.keeps_makeFolder (w : World) (P : List Text → Prop) (path : Path) :
    Keeps (Confined w P) (Host.makeFolder (m := StateM World) path) := by
  refine keeps_change fun w₁ w₂ h hmade => ?_
  obtain ⟨location, hleads, hfree, rfl⟩ := exists_of_withFolder hmade
  obtain ⟨entries, hfolder⟩ := hleads.folder
  refine h.put hfolder ?_ (fun _ _ => rfl) ?_ ?_
  · intro entries' hentries'
    rw [hfree] at hentries'
    cases hentries'
  · rw [hfree]
    exact .newFolder []
  · intro content hcontent
    cases hcontent

/-- A file comes to be where its path was located at first. -/
theorem Seat.landing_eq (hseat : w'.Seat path location) (h : Confined w P w') :
    w.landing path = some (location ++ [path.last]) := by
  obtain ⟨entries, hfolder⟩ := hseat.leads.folder
  have hwalk := hseat.leads.walk
  rw [start, h.home] at hwalk
  have hlocate : w.locate path.parent = some location := h.evolves.locate_eq hwalk hfolder
  rw [landing, hlocate, Option.map_some]

theorem Confined.withFile (h : Confined w P w') (hseat : w'.Seat path location)
    (hP : P (location ++ [path.last])) (content : Content) :
    Confined w P (w'.put (location ++ [path.last]) (.file content)) := by
  obtain ⟨entries, hfolder⟩ := hseat.leads.folder
  exact h.put hfolder hseat.free (fun _ _ => rfl) (.of_not_folder hseat.free content) fun _ _ => hP

/-- Files that are written are confined to the places where they come to be. -/
theorem Confined.keeps_write (hP : ∀ location, w.landing path = some location → P location)
    (text : Text) : Keeps (Confined w P) (Store.write (m := StateM World) path text) := by
  refine Store.keeps_write (keeps_makeFolder w P) (keeps_change fun w₁ w₂ h hfile => ?_)
  obtain ⟨location, hseat, rfl⟩ := exists_of_withFile hfile
  exact h.withFile hseat (hP _ (hseat.landing_eq h)) _

/-- Making folders changes no file. -/
theorem file_of_makeFolders {w₁ : World} {made : Except FileError Unit} {content : Content}
    (h : Store.makeFolders (m := StateM World) path w = (made, w₁))
    (hfile : w.root.at? location = some (.file content)) :
    w₁.root.at? location = some (.file content) := by
  have hconfined : Confined w (fun _ => False) w₁ := by
    have hkeeps := Store.keeps_makeFolders (Confined.keeps_makeFolder w fun _ => False) path w
      (.refl w _)
    rwa [h] at hkeeps
  obtain ⟨content', hfile'⟩ := hconfined.evolves.file hfile
  rcases hconfined.files location content' hfile' with hsame | hfalse
  · rw [hfile', ← hsame, hfile]
  · cases hfalse

/-- In a tree without links a path whose last name is a name leads to a file that is put there. -/
theorem Seat.resolve_eq (hseat : w.Seat path location) (hlinkless : Linkless w.root)
    (hname : Path.isName path.last = true) (content : Content) :
    (w.put (location ++ [path.last]) (.file content)).resolve path =
      .ok (location ++ [path.last]) := by
  obtain ⟨entries, hfolder⟩ := hseat.leads.folder
  have hnamed := hseat.named
  rw [hasLast, Bool.and_eq_true, decide_eq_true_iff, decide_eq_true_iff] at hnamed
  have hevolves : Evolves w.root (w.root.put (location ++ [path.last]) (.file content)) :=
    .put hfolder hseat.free (fun _ _ => rfl) (.of_not_folder hseat.free content)
  have hretains := hevolves.retains hlinkless
  obtain ⟨entries', hfolder'⟩ := hretains.folder hfolder
  have hleads : (w.put (location ++ [path.last]) (.file content)).Leads path.parent location :=
    ⟨hretains.walk_eq hseat.leads.walk, entries', hfolder'⟩
  obtain ⟨links, hlinks⟩ := hleads.walk_append
  have hentry : entry? entries' path.last = .ok (some (.file content)) :=
    entry?_eq_ok.2 ⟨hseat.short, (at?_concat hfolder' _).symm.trans (at?_put_self hfolder _ _)⟩
  have hwalk := hlinks [path.last]
  rw [root_put, walk_enter hfolder' hname hnamed.2 hentry (fun _ => Node.noConfusion), Node.walk,
    ← Path.names_append, Path.parent_append_last hnamed.1] at hwalk
  rw [resolve, hseat.takes]
  exact hwalk

/-- A file that has been written is at its place, with its text, and all other files are as they
were. Without links its path leads there. -/
theorem Confined.exists_written (h : Confined w P w') {w'' : World} {text : Text}
    (hwrite : Store.write (m := StateM World) path text w' = (.done, w'')) :
    ∃ location, w.landing path = some location ∧
      w''.root.at? location = some (.file (.text text)) ∧
      (∀ other content, other ≠ location → w'.root.at? other = some (.file content) →
        w''.root.at? other = some (.file content)) ∧
      (Linkless w.root → Path.isName path.last = true → w''.resolve path = .ok location) := by
  obtain ⟨w₁, hmade, hfile⟩ := Store.exists_of_write hwrite
  obtain ⟨place, hseat, rfl⟩ := exists_of_withFile hfile
  have h₁ : Confined w P w₁ := by
    have hkeeps := Store.keeps_makeFolders (keeps_makeFolder w P) path.parent w' h
    rwa [hmade] at hkeeps
  obtain ⟨entries, hfolder⟩ := hseat.leads.folder
  refine ⟨place ++ [path.last], hseat.landing_eq h₁, at?_put_self hfolder _ _, ?_, ?_⟩
  · intro other content hne hother
    have hother₁ := file_of_makeFolders hmade hother
    refine at?_put_file hfolder _ _ ?_ hother₁
    rintro ⟨rest, rfl⟩
    cases rest with
    | nil => exact hne (List.append_nil _)
    | cons first rest =>
      obtain ⟨entries', -, hentries', -⟩ := exists_folder_of_at? hother₁
      exact hseat.free entries' hentries'
  · intro hlinkless hname
    exact hseat.resolve_eq (h₁.evolves.linkless hlinkless) hname _

end World

end CondAttrs
