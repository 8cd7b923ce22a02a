import CondAttrs.Command.Expand
import CondAttrs.Proofs.Files.World

/-!
# Looking for files

A command first asks for its settings and its files. A *question* leaves the world as it is, and its
answer has a given property; or it fails, perhaps with a message, and the failure has a given
property. Questions can be asked one after the other.

The files that a pattern leads to have paths that go on from the folder in which they are looked
for. Unless such a path goes up, all its names are names of entries in that folder.

## Main definitions

* `World.exec`: the result of a computation that can fail, and the world after it.
* `World.Asks`: a computation is a question with a given property of its answer.
* `Glob.Closed`: a property of paths that the steps of a pattern keep.
* `Glob.Within`: a path goes on from another one by proper names, as long as it does not go up.

## Main statements

* `Glob.asks_select`: the paths of a pattern have the properties that its steps keep.
* `ExpandCommand.asks_sources`: the files of the command are in order, and have them, too.
-/

namespace CondAttrs

open Node

namespace World

/-! ## Computations that can fail -/

section

variable {ε α β : Type}

/-- The result of a computation, and the world after it. -/
def exec (w : World) (x : ExceptT ε (StateM World) α) : Except ε α × World :=
  x.run w

variable {w w' : World} {x : ExceptT ε (StateM World) α} {f : α → ExceptT ε (StateM World) β}

theorem exec_bind : w.exec (x >>= f) =
    match w.exec x with
    | (.ok a, w') => w'.exec (f a)
    | (.error e, w') => (.error e, w') := by
  show (let (result, w') := w.exec x; ExceptT.bindCont f result w') = _
  rcases w.exec x with ⟨_ | _, _⟩ <;> rfl

theorem exec_bind_ok {a : α} (h : w.exec x = (.ok a, w')) : w.exec (x >>= f) = w'.exec (f a) := by
  rw [exec_bind, h]

theorem exec_bind_error {e : ε} (h : w.exec x = (.error e, w')) :
    w.exec (x >>= f) = (.error e, w') := by
  rw [exec_bind, h]

/-- A sequence that succeeds has two parts that do. -/
theorem exists_of_exec_bind {b : β} (h : w.exec (x >>= f) = (.ok b, w')) :
    ∃ a w₁, w.exec x = (.ok a, w₁) ∧ w₁.exec (f a) = (.ok b, w') := by
  rw [exec_bind] at h
  split at h
  · rename_i a w₁ hx
    exact ⟨a, w₁, hx, h⟩
  · cases h

/-! ## Questions -/

/-- The computation leaves the world as it is and returns something with the property `P`, or it
fails with the property `E` and does no more than complain. -/
def Asks (w : World) (x : ExceptT ε (StateM World) α) (E : ε → Prop) (P : α → Prop) : Prop :=
  (∃ a, w.exec x = (.ok a, w) ∧ P a) ∨
    ∃ e errors, w.exec x = (.error e, { w with errors := errors }) ∧ E e

variable {E : ε → Prop} {P : α → Prop} {Q : β → Prop}

theorem asks_pure {a : α} (h : P a) : w.Asks (pure a : ExceptT ε (StateM World) α) E P :=
  .inl ⟨a, rfl, h⟩

theorem asks_throw {e : ε} (h : E e) : w.Asks (throw e : ExceptT ε (StateM World) α) E P :=
  .inr ⟨e, w.errors, rfl, h⟩

theorem Asks.bind (h : w.Asks x E P) (hf : ∀ a, P a → w.Asks (f a) E Q) :
    w.Asks (x >>= f) E Q := by
  rcases h with ⟨a, hok, ha⟩ | ⟨e, errors, herror, he⟩
  · rw [Asks, exec_bind_ok hok]
    exact hf a ha
  · exact .inr ⟨e, errors, exec_bind_error herror, he⟩

/-- Questions about all elements of a list. -/
theorem asks_mapM {l : List α} {g : α → ExceptT ε (StateM World) β}
    (h : ∀ a ∈ l, w.Asks (g a) E Q) : w.Asks (l.mapM g) E fun bs => ∀ b ∈ bs, Q b := by
  induction l with
  | nil =>
    rw [List.mapM_nil]
    exact asks_pure fun b hb => absurd hb List.not_mem_nil
  | cons a l ih =>
    rw [List.mapM_cons]
    refine (h a List.mem_cons_self).bind fun b hb => ?_
    refine (ih fun a' ha' => h a' (List.mem_cons_of_mem a ha')).bind fun bs hbs => ?_
    refine asks_pure fun b' hb' => ?_
    rcases List.mem_cons.1 hb' with rfl | hb'
    · exact hb
    · exact hbs b' hb'

/-- The elements of a list for which a question has the answer yes. -/
theorem asks_filterM {l : List α} {p : α → ExceptT ε (StateM World) Bool}
    (h : ∀ a ∈ l, w.Asks (p a) E fun b => b = true → P a) :
    w.Asks (l.filterM p) E fun kept => ∀ a ∈ kept, P a := by
  -- The elements that are kept are collected in reverse.
  have haux : ∀ (l acc : List α), (∀ a ∈ l, w.Asks (p a) E fun b => b = true → P a) →
      (∀ a ∈ acc, P a) → w.Asks (l.filterAuxM p acc) E fun kept => ∀ a ∈ kept, P a := by
    intro l
    induction l with
    | nil =>
      intro acc _ hacc
      rw [List.filterAuxM]
      exact asks_pure hacc
    | cons a l ih =>
      intro acc hl hacc
      rw [List.filterAuxM]
      refine (hl a List.mem_cons_self).bind fun b hb => ?_
      refine ih _ (fun a' ha' => hl a' (List.mem_cons_of_mem a ha')) ?_
      cases b with
      | false => exact hacc
      | true =>
        intro a' ha'
        rcases List.mem_cons.1 ha' with rfl | ha'
        · exact hb rfl
        · exact hacc a' ha'
  rw [List.filterM]
  refine (haux l [] h fun a ha => absurd ha List.not_mem_nil).bind fun kept hkept => ?_
  exact asks_pure fun a ha => hkept a (List.mem_reverse.1 ha)

end

/-! ## Questions about paths -/

theorem asks_kind? (w : World) (path : Path) :
    w.Asks (ExceptT.mk (Host.kind? path : StateM World _)) (fun _ => True) fun kind =>
      w.kind? path = .ok kind := by
  cases h : w.kind? path with
  | ok kind => exact .inl ⟨kind, congrArg (·, w) h, rfl⟩
  | error e => exact .inr ⟨e, w.errors, congrArg (·, w) h, trivial⟩

theorem asks_names (w : World) (path : Path) :
    w.Asks (liftM (Host.names path : StateM World _) : ExceptT FileError (StateM World) _)
      (fun _ => True) fun names => names = w.names path :=
  .inl ⟨w.names path, rfl, rfl⟩

theorem asks_folders (w : World) (path : Path) :
    w.Asks (liftM (Host.folders path : StateM World _) : ExceptT FileError (StateM World) _)
      (fun _ => True) fun folders => folders = w.folders path :=
  .inl ⟨w.folders path, rfl, rfl⟩

/-! ## Paths inside a regular tree -/

/-- What a path inside a regular tree leads to. -/
theorem at?_of_find {w : World} {input : Path} {source node : Node} {names : List Text}
    (hsource : w.find input = .ok source) (hregular : source.Regular)
    (hnames : ∀ name ∈ names, Proper name) (h : w.find (input.append names) = .ok node) :
    source.at? names = some node ∧ ∀ name ∈ names, Spelled name := by
  obtain ⟨-, place, hplace, hsource⟩ := exists_of_find hsource
  obtain ⟨-, location, hwalk, hnode⟩ := exists_of_find h
  rw [Path.names_append, start_append] at hwalk
  rcases Node.walk_append w.root maxLinks (w.start input) input.names with
    ⟨e, herror, -⟩ | ⟨place', links, hplace', hrest⟩
  · rw [hplace] at herror
    cases herror
  rw [hplace] at hplace'
  cases hplace'
  rw [hrest] at hwalk
  obtain ⟨rfl, hspelled, -, -⟩ := hregular.of_walk hsource hnames hwalk
  rw [at?_append, hsource, Option.bind_some] at hnode
  exact ⟨hnode, hspelled⟩

end World

/-! ## Folders -/

namespace Node

mutual

/-- The folders below a path go on from it, and by proper names in a regular tree. -/
theorem mem_foldersOf {path p : Path} : ∀ node : Node, p ∈ foldersOf path node →
    ∃ names, p = path.append names ∧ (node.Regular → ∀ name ∈ names, Proper name)
  | folder entries, hp => by
    rw [foldersOf] at hp
    rcases List.mem_cons.1 hp with rfl | hp
    · exact ⟨[], (Path.append_nil _).symm, fun _ _ hname => absurd hname List.not_mem_nil⟩
    obtain ⟨names, rfl, hproper⟩ := mem_foldersIn entries hp
    refine ⟨names, rfl, fun hregular => ?_⟩
    cases hregular with
    | folder hnames hnodes => exact hproper hnames hnodes
  | file content, hp => by cases hp
  | link target, hp => by cases hp

theorem mem_foldersIn {path p : Path} : ∀ entries : List (Text × Node), p ∈ foldersIn path entries →
    ∃ names, p = path.append names ∧ ((∀ entry ∈ entries, Proper entry.1) →
      (∀ entry ∈ entries, entry.2.Regular) → ∀ name ∈ names, Proper name)
  | [], hp => by cases hp
  | (name, node) :: rest, hp => by
    rw [foldersIn] at hp
    rcases List.mem_append.1 hp with hp | hp
    · obtain ⟨names, rfl, hproper⟩ := mem_foldersOf node hp
      refine ⟨name :: names, ?_, fun hnames hnodes other hother => ?_⟩
      · rw [Path.child_eq, Path.append_append, List.singleton_append]
      rcases List.mem_cons.1 hother with rfl | hother
      · exact hnames _ List.mem_cons_self
      · exact hproper (hnodes _ List.mem_cons_self) other hother
    · obtain ⟨names, rfl, hproper⟩ := mem_foldersIn rest hp
      refine ⟨names, rfl, fun hnames hnodes => hproper ?_ ?_⟩
      · exact fun entry hentry => hnames entry (List.mem_cons_of_mem _ hentry)
      · exact fun entry hentry => hnodes entry (List.mem_cons_of_mem _ hentry)

end

end Node

namespace Glob

/-! ## Patterns -/

/-- The path goes on from the input. -/
def Onward (input path : Path) : Prop :=
  ∃ names, path = input.append names

/-- The path goes on from the input by proper names, unless it goes up. -/
def Within (input path : Path) : Prop :=
  ∃ names, path = input.append names ∧ (Path.up ∉ names → ∀ name ∈ names, Proper name)

variable {w : World} {input path : Path} {source : Node}

/-- Whatever a step of a pattern leads to from a path with the property has it, too. -/
structure Closed (w : World) (P : Path → Prop) : Prop where
  folders : ∀ {path p : Path}, P path → p ∈ w.folders path → P p
  names : ∀ {path : Path} {name : Text}, P path → name ∈ w.names path → P (path.child name)
  exactly : ∀ {path : Path} {name : Text}, P path → Path.isName name = true → P (path.child name)

theorem onward_self (input : Path) : Onward input input :=
  ⟨[], (Path.append_nil input).symm⟩

/-- A path can go on by a name if, as long as it has not gone up, the name is proper or goes up. -/
theorem Within.append (h : Within input path) {more : List Text}
    (hmore : ∀ names, path = input.append names → (∀ name ∈ names, Proper name) →
      Path.up ∉ more → ∀ name ∈ more, Proper name) : Within input (path.append more) := by
  obtain ⟨names, rfl, hnames⟩ := h
  refine ⟨names ++ more, Path.append_append _ _ _, fun hup name hname => ?_⟩
  have hup₁ : Path.up ∉ names := fun hmem => hup (List.mem_append_left _ hmem)
  have hup₂ : Path.up ∉ more := fun hmem => hup (List.mem_append_right _ hmem)
  rcases List.mem_append.1 hname with hname | hname
  · exact hnames hup₁ name hname
  · exact hmore names rfl (hnames hup₁) hup₂ name hname

/-- A name that a pattern spells out. -/
theorem Within.exactly (h : Within input path) {name : Text} (hname : Path.isName name = true) :
    Within input (path.child name) := by
  refine h.append fun names _ _ hup other hother => ?_
  rw [List.mem_singleton.1 hother]
  exact ⟨hname, fun heq => hup (List.mem_singleton.2 heq.symm)⟩

section

variable (hsource : w.find input = .ok source) (hregular : source.Regular)

include hsource hregular

/-- The names in a folder inside a regular tree. -/
theorem Within.names (h : Within input path) {name : Text} (hname : name ∈ w.names path) :
    Within input (path.child name) := by
  refine h.append fun names hpath hnames _ other hother => ?_
  rw [List.mem_singleton.1 hother]
  rw [World.names] at hname
  split at hname
  · rename_i entries hfind
    subst hpath
    obtain ⟨hat, -⟩ := World.at?_of_find hsource hregular hnames hfind
    cases hregular.at? hat with
    | folder hentries _ =>
      obtain ⟨entry, hentry, rfl⟩ := List.mem_map.1 hname
      exact hentries entry hentry
  · cases hname

/-- The folders below a folder inside a regular tree. -/
theorem Within.folders (h : Within input path) {p : Path} (hp : p ∈ w.folders path) :
    Within input p := by
  rw [World.folders] at hp
  split at hp
  · rename_i node hfind
    obtain ⟨more, rfl, hproper⟩ := mem_foldersOf node hp
    refine h.append fun names hpath hnames _ => ?_
    subst hpath
    exact hproper (hregular.at? (World.at?_of_find hsource hregular hnames hfind).1)
  · cases hp

end

/-- Every path that a pattern leads to goes on from where it starts. -/
theorem closed_onward (w : World) (input : Path) : Closed w (Onward input) where
  folders := by
    rintro _ p ⟨names, rfl⟩ hp
    rw [World.folders] at hp
    split at hp
    · rename_i node _
      obtain ⟨more, rfl, -⟩ := mem_foldersOf node hp
      exact ⟨names ++ more, Path.append_append _ _ _⟩
    · cases hp
  names := by
    rintro _ name ⟨names, rfl⟩ -
    exact ⟨names ++ [name], Path.append_append _ _ _⟩
  exactly := by
    rintro _ name ⟨names, rfl⟩ -
    exact ⟨names ++ [name], Path.append_append _ _ _⟩

/-- The steps of the pattern that are names have a meaning. -/
def Meaningful (steps : List Step) : Prop :=
  ∀ name, Step.exactly name ∈ steps → Path.isName name = true

/-- The paths that a pattern leads to have every property that its steps keep. -/
theorem asks_select {P : Path → Prop} (hclosed : Closed w P) {steps : List Step}
    (hsteps : Meaningful steps) (h : P path) :
    w.Asks (select steps path) (fun _ => True) fun paths => ∀ p ∈ paths, P p := by
  have hone : ∀ {path}, P path → ∀ p ∈ [path], P p := by
    intro path h p hp
    rwa [List.mem_singleton.1 hp]
  have hflatten : ∀ {found : List (List Path)}, (∀ paths ∈ found, ∀ p ∈ paths, P p) →
      ∀ p ∈ found.flatten, P p := by
    intro found hfound p hp
    obtain ⟨paths, hpaths, hp⟩ := List.mem_flatten.1 hp
    exact hfound paths hpaths p hp
  induction steps generalizing path with
  | nil =>
    rw [select]
    exact World.asks_pure (hone h)
  | cons step rest ih =>
    have hrest : Meaningful rest := fun name hname => hsteps name (List.mem_cons_of_mem _ hname)
    cases step with
    | here =>
      rw [select]
      exact World.asks_pure (hone h)
    | deep =>
      rw [select]
      refine (World.asks_folders w path).bind fun folders hfolders => ?_
      refine (World.asks_mapM fun folder hfolder => ih hrest ?_).bind fun found hfound => ?_
      · rw [hfolders] at hfolder
        exact hclosed.folders h hfolder
      · refine World.asks_pure fun p hp => hflatten hfound p ?_
        exact List.mem_eraseDups.1 hp
    | exactly name =>
      have hname := hclosed.exactly h (hsteps name List.mem_cons_self)
      rw [select]
      refine (World.asks_kind? w (path.child name)).bind fun kind _ => ?_
      cases kind with
      | none => exact World.asks_pure fun p hp => absurd hp List.not_mem_nil
      | some kind =>
        simp only []
        split
        · exact ih hrest hname
        · exact World.asks_pure fun p hp => absurd hp List.not_mem_nil
    | matching marks =>
      rw [select]
      refine (World.asks_names w path).bind fun names hnames => ?_
      refine World.Asks.bind
        (P := fun found : List (List Path) => ∀ paths ∈ found, ∀ p ∈ paths, P p)
        (World.asks_mapM fun name hname => ?_) fun found hfound => ?_
      · rw [hnames] at hname
        have hchild := hclosed.names h (List.mem_filter.1 hname).1
        split
        · exact ih hrest hchild
        have hfolder : w.Asks (isFolder (path.child name) : ExceptT FileError (StateM World) _)
            (fun _ => True) fun _ => True := by
          rw [isFolder]
          exact (World.asks_kind? w (path.child name)).bind fun _ _ => World.asks_pure trivial
        refine hfolder.bind fun found _ => ?_
        split
        · exact ih hrest hchild
        · exact World.asks_pure fun p hp => absurd hp List.not_mem_nil
      · exact World.asks_pure (hflatten hfound)

/-- The names in a pattern have a meaning. -/
theorem meaningful_of_ofText? {pattern : Text} {steps : List Step}
    (h : ofText? pattern = some steps) : Meaningful steps := by
  have hpart : ∀ (parts : List Text) {steps : List Step}, parts.mapM Step.ofText? = some steps →
      ∀ name, Step.exactly name ∈ steps → name ∈ parts := by
    intro parts steps hsteps name hname
    induction parts generalizing steps with
    | nil =>
      cases hsteps
      cases hname
    | cons part parts ih =>
      rw [List.mapM_cons] at hsteps
      obtain ⟨step, hstep, hsteps⟩ := Option.bind_eq_some_iff.1 hsteps
      obtain ⟨steps', hsteps', hcons⟩ := Option.bind_eq_some_iff.1 hsteps
      cases hcons
      rcases List.mem_cons.1 hname with rfl | hname
      · have heq : part = name := by
          unfold Step.ofText? at hstep
          split at hstep
          · cases hstep
          split at hstep
          · cases hstep
          split at hstep
          · cases hstep
          · cases hstep
            rfl
        exact heq ▸ List.mem_cons_self
      · exact List.mem_cons_of_mem _ (ih hsteps' hname)
  obtain ⟨steps', hsteps', hsteps⟩ := Option.bind_eq_some_iff.1 h
  intro name hname
  have hmem : Step.exactly name ∈ steps' := by
    cases hsteps
    split at hname
    · rcases List.mem_append.1 hname with hname | hname
      · exact hname
      · cases List.mem_singleton.1 hname
    · exact hname
  exact (List.mem_filter.1 (hpart _ hsteps' name hmem)).2

end Glob

/-! ## The files of the command -/

namespace ExpandCommand

section

variable {α : Type} {w w' : World} {action : StateM World (Except FileError α)}

theorem exec_orCrash_ok {a : α} (h : action w = (.ok a, w')) :
    w.exec (Step.orCrash action) = (.ok a, w') := by
  have hlift : w.exec (liftM action : Step (StateM World) _) = (.ok (.ok a), w') := by
    show (Except.ok (action w).1, (action w).2) = _
    rw [h]
  rw [Step.orCrash, World.exec_bind_ok hlift]
  rfl

theorem exec_orCrash_error {e : FileError} (h : action w = (.error e, w')) :
    w.exec (Step.orCrash action) = (.error (.crashed (.file e)), w') := by
  have hlift : w.exec (liftM action : Step (StateM World) _) = (.ok (.error e), w') := by
    show (Except.ok (action w).1, (action w).2) = _
    rw [h]
  rw [Step.orCrash, World.exec_bind_ok hlift]
  rfl

theorem asks_orCrash {x : ExceptT FileError (StateM World) α} {P : α → Prop} {E : Outcome → Prop}
    (h : w.Asks x (fun _ => True) P) (hE : ∀ cause, E (.crashed cause)) :
    w.Asks (Step.orCrash x.run) E P := by
  rcases h with ⟨a, hok, ha⟩ | ⟨e, errors, herror, -⟩
  · exact .inl ⟨a, exec_orCrash_ok hok, ha⟩
  · exact .inr ⟨_, errors, exec_orCrash_error herror, hE _⟩

end

theorem asks_stepKind? (w : World) (path : Path) {E : Outcome → Prop}
    (hE : ∀ cause, E (.crashed cause)) :
    w.Asks (Step.kind? path : Step (StateM World) _) E fun kind => w.kind? path = .ok kind :=
  asks_orCrash (w.asks_kind? path) hE

theorem pairwise_sort (paths : List Path) :
    (Path.sort paths).Pairwise fun p q => p.le q = true := by
  refine List.pairwise_mergeSort (fun a b c hab hbc => ?_) (fun a b => ?_) paths
  · simp only [Path.le, Bool.not_eq_true', decide_eq_false_iff_not] at hab hbc ⊢
    exact List.le_trans hab hbc
  · simp only [Path.le, Bool.or_eq_true, Bool.not_eq_true', decide_eq_false_iff_not]
    exact List.le_total a.names b.names

/-- The files are in order, and have every property of the input that patterns keep. -/
theorem asks_sources {w : World} {input : Path} {kind : EntryKind} {suffix : Text}
    {E : Outcome → Prop} (hE : ∀ cause, E (.crashed cause)) {P : Path → Prop}
    (hkind : w.kind? input = .ok (some kind)) (hclosed : Glob.Closed w P) (hinput : P input) :
    w.Asks (sources input kind suffix : Step (StateM World) _) E fun files =>
      files.Pairwise (fun p q => p.le q = true) ∧
        ∀ path ∈ files, P path ∧ w.kind? path = .ok (some .file) := by
  rw [sources]
  split
  · rename_i hfile
    refine World.asks_pure ⟨List.pairwise_singleton _ _, fun path hpath => ?_⟩
    rw [List.mem_singleton.1 hpath, hkind, hfile]
    exact ⟨hinput, rfl⟩
  split
  · exact World.asks_throw (hE _)
  rename_i steps hsteps
  have hmeaningful : Glob.Meaningful (.deep :: steps) := by
    intro name hname
    rcases List.mem_cons.1 hname with hname | hname
    · cases hname
    · exact Glob.meaningful_of_ofText? hsteps name hname
  have hselect := Glob.asks_select hclosed hmeaningful hinput
  refine (asks_orCrash hselect hE).bind fun found hfound => ?_
  refine World.Asks.bind
    (P := fun files => ∀ path ∈ files, P path ∧ w.kind? path = .ok (some .file))
    (World.asks_filterM fun path hpath => ?_) fun files hfiles => ?_
  · refine (asks_stepKind? w path hE).bind fun kind hkind => World.asks_pure fun hfile => ?_
    rw [decide_eq_true_iff] at hfile
    exact ⟨hfound path hpath, hfile ▸ hkind⟩
  · refine World.asks_pure ⟨pairwise_sort files, fun path hpath => hfiles path ?_⟩
    exact List.mem_mergeSort.1 hpath

end ExpandCommand

end CondAttrs
