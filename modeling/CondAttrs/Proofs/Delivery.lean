import CondAttrs.Proofs.Landing
import Mathlib

/-!
# What the output is expanded from

The expansion command is run on a folder of a tree without links, with a path for its output. Files
are read and written by turns, so that the output for one file may come to be in the place of
another one that is still to be read, or of the output for another one. If it does not, and the run
succeeds, then each counterpart holds the expansion of the text that its file had when the run
began.

## Main definitions

* `ExpandCommand.Job.Apart`: the output for a file spares another file, and its output.
* `ExpandCommand.Job.Delivered`: the output for a file is in its place.

## Main statements

* `ExpandCommand.exec_expandFile_delivered`: what is written for one file.
* `ExpandCommand.exec_expandAll_delivered`: what is there after all files.
* `ExpandCommand.run_delivers`: a run expands the texts that were there when it began.
* `ExpandCommand.run_overlapping`: it need not, if the output goes into the input.
-/

namespace CondAttrs

open Node

namespace World

variable {w w' : World} {path : Path}

/-! ## Files that are spared -/

/-- The file that a path leads to is as it was in the first world. -/
def Spared (w : World) (path : Path) (w' : World) : Prop :=
  ∀ location content, w.resolve path = .ok location →
    w.root.at? location = some (.file content) → w'.root.at? location = some (.file content)

/-- The text of a file that is as it was. -/
theorem Spared.read_eq (hspared : w.Spared path w') {P : List Text → Prop}
    (h : w.Confined P w') (hlinkless : Linkless w.root)
    (hkind : w.kind? path = .ok (some .file)) : w'.read path = w.read path := by
  obtain ⟨node, hfind, hfile, -⟩ := exists_of_kind? hkind
  obtain ⟨content, rfl⟩ := hfile rfl
  obtain ⟨htakes, location, hwalk, hnode⟩ := exists_of_find hfind
  have hresolve : w.resolve path = .ok location := resolve_eq_ok.2 ⟨htakes, hwalk⟩
  have hfind' : w'.find path = .ok (.file content) :=
    find_of_resolve (resolve_retains hresolve (h.evolves.retains hlinkless) h.home)
      (hspared location content hresolve hnode)
  rw [read, read, hfind, hfind']

end World

namespace ExpandCommand

/-! ## Runs that stop -/

/-- If the step ends the command, it does not end it as a success. -/
def Stops {α : Type} (x : Step (StateM World) α) : Prop :=
  ∀ (w : World) (e : Outcome) (w' : World), w.exec x = (.error e, w') → Stopped e

section

variable {α β : Type}

theorem stops_pure (a : α) : Stops (pure a) := by
  intro w e w' h
  cases h

theorem Stops.bind {x : Step (StateM World) α} {f : α → Step (StateM World) β} (hx : Stops x)
    (hf : ∀ a, Stops (f a)) : Stops (x >>= f) := by
  intro w e w' h
  rw [World.exec_bind] at h
  split at h
  · rename_i a w₁ _
    exact hf a w₁ e w' h
  · rename_i e₁ w₁ hfirst
    cases h
    exact hx w _ _ hfirst

theorem stops_throw {e : Outcome} (h : Stopped e) : Stops (throw e : Step (StateM World) α) := by
  intro w e' w' hthrow
  cases hthrow
  exact h

theorem stops_lift (action : StateM World α) : Stops (liftM action : Step (StateM World) α) := by
  intro w e w' h
  cases h

theorem stops_orCrash (action : StateM World (Except FileError α)) :
    Stops (Step.orCrash action) := by
  refine (stops_lift action).bind fun result => ?_
  cases result with
  | ok a => exact stops_pure a
  | error e => exact stops_throw (stopped_crashed _)

theorem stops_refuse (message : Text) : Stops (Step.refuse message : Step (StateM World) α) :=
  (stops_lift _).bind fun _ => stops_throw fun h => by cases h

end

variable {w w' : World} {o : Options} {s : Settings} {input out path : Path} {job : Job}

theorem stops_expandFile (hout : o.out = some out) :
    Stops (expandFile (m := StateM World) o s input .folder path) := by
  refine ((stops_orCrash _).bind fun _ => stops_pure _).bind fun before => ?_
  refine Stops.bind ?_ fun result => ?_
  · cases o.expand? s before with
    | some result => exact stops_pure result
    | none => exact stops_throw (stopped_crashed _)
  refine Stops.bind ?_ fun _ => ?_
  · rw [reportFaults]
    split
    · exact stops_lift _
    · exact stops_pure _
  split
  · split
    · exact stops_pure _
    · exact (stops_lift _).bind fun _ => stops_pure _
  refine Stops.bind ?_ fun _ => stops_pure _
  rw [deliver, hout]
  simp only [target_folder, pure_bind]
  refine (stops_lift _).bind fun written => ?_
  cases written with
  | done => exact stops_lift _
  | refused message => exact stops_refuse message
  | failed e => exact stops_throw (stopped_crashed _)

theorem stops_expandAll (hout : o.out = some out) (files : List Path) :
    Stops (expandAll (m := StateM World) o s input .folder files) := by
  induction files with
  | nil => exact stops_pure _
  | cons path rest ih =>
    exact (stops_expandFile hout).bind fun first => ih.bind fun others => stops_pure _

/-- A run that succeeds has come through all of its files. -/
theorem exists_of_ending {e : Outcome × World} (hout : o.out = some out)
    (hkind : job.kind = .folder) (h : ending (w.exec (perform o job)) = e)
    (hexit : e.1 = .exited 0) :
    ∃ right, w.exec (expandAll o job.settings job.input .folder job.files) = (.ok right, e.2) := by
  subst h
  obtain ⟨result, w₁, hall⟩ : ∃ result w₁,
      w.exec (expandAll o job.settings job.input .folder job.files) = (result, w₁) := ⟨_, _, rfl⟩
  cases result with
  | ok right =>
    rw [← hkind] at hall
    rw [exec_perform hall, ← hkind]
    exact ⟨right, hall⟩
  | error e =>
    have hstopped := stops_expandAll hout job.files w e w₁ hall
    rw [perform, hkind, World.exec_bind_error hall] at hexit
    exact absurd hexit hstopped

/-! ## One file -/

theorem exists_of_stepRead {t : Text} (h : w.exec (Step.read path) = (.ok t, w')) :
    w' = w ∧ ∃ raw, w.read path = .ok raw ∧ t = Text.unifyNewlines raw := by
  cases hread : w.read path with
  | ok raw =>
    rw [exec_read hread] at h
    cases h
    exact ⟨rfl, raw, rfl, rfl⟩
  | error e =>
    have hasked : (Host.read path : StateM World _) w = (.error e, w) := congrArg (·, w) hread
    rw [Step.read, World.exec_bind_error (exec_orCrash_error hasked)] at h
    cases h

theorem exists_of_valued {α : Type} {option : Usage.Spec} {value : Option α} {a : α}
    (h : w.exec (Step.valued option value) = (.ok a, w')) : value = some a ∧ w' = w := by
  cases value with
  | some b =>
    cases h
    exact ⟨rfl, rfl⟩
  | none => cases h

theorem exists_of_stepWrite {text : Text} (h : w.exec (Step.write path text) = (.ok (), w')) :
    ∃ w₁, Store.write (m := StateM World) path text w = (.done, w₁) ∧
      w' = { w₁ with output := w₁.output ++ okLine path.text } := by
  rw [Step.write] at h
  obtain ⟨written, w₁, hwrite, h⟩ := World.exists_of_exec_bind h
  have hstore : Store.write (m := StateM World) path text w = (written, w₁) := by
    have hlift : (Except.ok (ε := Outcome) (Store.write (m := StateM World) path text w).1,
        (Store.write (m := StateM World) path text w).2) = (.ok written, w₁) := hwrite
    obtain ⟨hwritten, hworld⟩ := Prod.mk.inj hlift
    exact Prod.ext (Except.ok.inj hwritten) hworld
  cases written with
  | done =>
    cases h
    exact ⟨w₁, hstore, rfl⟩
  | refused message => cases h
  | failed e => cases h

/-- A file that has been worked on was read, expanded and written. -/
theorem exists_of_expandFile {right : Bool} (hcheck : o.check = false) (hout : o.out = some out)
    (h : w.exec (expandFile o s input .folder path) = (.ok right, w')) :
    ∃ t result errors output w₁, w.read path = .ok t ∧
      o.expand? s (Text.unifyNewlines t) = some result ∧
      Store.write (m := StateM World) (out.append (path.below input)) result.text
        { w with errors := errors } = (.done, w₁) ∧
      w' = { w₁ with output := output } := by
  rw [expandFile] at h
  obtain ⟨before, w₂, hread, hexpand⟩ := World.exists_of_exec_bind h
  obtain ⟨rfl, t, ht, rfl⟩ := exists_of_stepRead hread
  obtain ⟨result, w₃, hvalued, hreport⟩ := World.exists_of_exec_bind hexpand
  obtain ⟨hresult, rfl⟩ := exists_of_valued hvalued
  obtain ⟨_, w₄, hreported, hdeliver⟩ := World.exists_of_exec_bind hreport
  rw [exec_reportFaults _ ⟨path, Text.unifyNewlines t, result⟩] at hreported
  cases hreported
  rw [hcheck, if_neg Bool.false_ne_true] at hdeliver
  obtain ⟨_, w₅, hdelivered, hdone⟩ := World.exists_of_exec_bind hdeliver
  cases hdone
  rw [deliver, hout] at hdelivered
  simp only [target_folder, pure_bind] at hdelivered
  obtain ⟨w₁, hwrite, rfl⟩ := exists_of_stepWrite hdelivered
  exact ⟨t, result, _, _, w₁, ht, hresult, hwrite, rfl⟩

/-- The output for a file, expanded from the text that the file has in the first world, is in its
place in the second. -/
def Job.Delivered (job : Job) (o : Options) (out : Path) (w : World) (path : Path)
    (w' : World) : Prop :=
  ∃ t result location, w.read path = .ok t ∧
    o.expand? job.settings (Text.unifyNewlines t) = some result ∧
    w.landing (job.counterpart out path) = some location ∧
    w'.resolve (job.counterpart out path) = .ok location ∧
    w'.root.at? location = some (.file (.text result.text))

/-- The output for a file that is as it was at first is put in its place, and no other file is
changed. -/
theorem exec_expandFile_delivered {w₁ w₂ : World} {P : List Text → Prop} {right : Bool}
    (hlinkless : Linkless w.root) (hcheck : o.check = false) (hout : o.out = some out)
    (hkind : w.kind? path = .ok (some .file))
    (hname : Path.isName (job.counterpart out path).last = true) (h : w.Confined P w₁)
    (hspared : w.Spared path w₁)
    (hrun : w₁.exec (expandFile o job.settings job.input .folder path) = (.ok right, w₂)) :
    job.Delivered o out w path w₂ ∧
      ∀ location content, w.landing (job.counterpart out path) ≠ some location →
        w₁.root.at? location = some (.file content) →
        w₂.root.at? location = some (.file content) := by
  obtain ⟨t, result, errors, output, w₃, hread, hresult, hwrite, rfl⟩ :=
    exists_of_expandFile hcheck hout hrun
  rw [hspared.read_eq h hlinkless hkind] at hread
  obtain ⟨location, hlanding, hfile, hothers, hresolve⟩ :=
    (h.printed w₁.output errors).exists_written hwrite
  refine ⟨⟨t, result, location, hread, hresult, hlanding, hresolve hlinkless hname, hfile⟩, ?_⟩
  intro other content hother hcontent
  refine hothers other content (fun heq => hother ?_) hcontent
  rw [heq]
  exact hlanding

/-! ## All files -/

/-- The counterparts of the files of a job whose input is a folder have a last name. -/
theorem Job.Ready.isName_counterpart (h : job.Ready w o Glob.Onward)
    (hkind : job.kind = .folder) (out : Path) {path : Path} (hpath : path ∈ job.files) :
    Path.isName (job.counterpart out path).last = true := by
  obtain ⟨names, hne, rfl⟩ := h.exists_below hkind hpath
  obtain ⟨front, name, rfl⟩ : ∃ front name, names = front ++ [name] :=
    ⟨_, _, (List.dropLast_concat_getLast hne).symm⟩
  obtain ⟨node, hfind, hfile, -⟩ := World.exists_of_kind? (h.files _ hpath).2
  obtain ⟨content, rfl⟩ := hfile rfl
  rw [Job.counterpart, Path.below_append, Path.last_append]
  rw [← Path.append_append] at hfind
  exact World.isName_of_find hfind

/-- The output for the first file does not take the place of the second one, and it takes the place
of the output for it only if both are the same file. -/
structure Job.Apart (job : Job) (w : World) (out p q : Path) : Prop where
  input : ∀ location, w.landing (job.counterpart out p) = some location →
    w.resolve q ≠ .ok location
  output : w.landing (job.counterpart out p) = w.landing (job.counterpart out q) →
    w.resolve p = w.resolve q

/-- Output that is in its place is still there after more files. If it has been written over, then
with the output for the same file. -/
theorem Job.Delivered.after {w₁ w₂ : World} {rest : List Path} (h : job.Delivered o out w path w₁)
    (hroot : Retains w₁.root w₂.root) (hhome : w₂.home = w₁.home)
    (hapart : ∀ q ∈ rest, job.Apart w out path q)
    (hall : ∀ q ∈ rest, job.Delivered o out w q w₂)
    (hkept : ∀ location content,
      (∀ q ∈ rest, w.landing (job.counterpart out q) ≠ some location) →
      w₁.root.at? location = some (.file content) → w₂.root.at? location = some (.file content)) :
    job.Delivered o out w path w₂ := by
  obtain ⟨t, result, location, hread, hresult, hlanding, hresolve, hfile⟩ := h
  refine ⟨t, result, location, hread, hresult, hlanding,
    World.resolve_retains hresolve hroot hhome, ?_⟩
  by_cases hmeets : ∃ q ∈ rest, w.landing (job.counterpart out q) = some location
  · obtain ⟨q, hq, hlandingq⟩ := hmeets
    obtain ⟨t', result', location', hread', hresult', hlanding', -, hfile'⟩ := hall q hq
    have hsame := (hapart q hq).output (hlanding.trans hlandingq.symm)
    rw [World.read_congr hsame, hread'] at hread
    cases hread
    rw [hresult'] at hresult
    cases hresult
    rw [hlandingq] at hlanding'
    cases hlanding'
    exact hfile'
  · exact hkept location _ (fun q hq hlandingq => hmeets ⟨q, hq, hlandingq⟩) hfile

/-- After all files, the output for each of them is in its place. -/
theorem exec_expandAll_delivered {w₁ w₂ : World} {right : Bool}
    {files : List Path} (hlinkless : Linkless w.root) (hcheck : o.check = false)
    (hout : o.out = some out)
    (hfiles : ∀ path ∈ files, w.kind? path = .ok (some .file) ∧
      Path.isName (job.counterpart out path).last = true)
    (hapart : files.Pairwise (job.Apart w out)) (h : w.Confined (fun _ => True) w₁)
    (hspared : ∀ path ∈ files, w.Spared path w₁)
    (hrun : w₁.exec (expandAll o job.settings job.input .folder files) = (.ok right, w₂)) :
    (∀ path ∈ files, job.Delivered o out w path w₂) ∧
      ∀ location content,
        (∀ path ∈ files, w.landing (job.counterpart out path) ≠ some location) →
        w₁.root.at? location = some (.file content) →
        w₂.root.at? location = some (.file content) := by
  induction files generalizing w₁ right with
  | nil =>
    cases hrun
    exact ⟨fun path hpath => absurd hpath List.not_mem_nil, fun _ _ _ hcontent => hcontent⟩
  | cons path rest ih =>
    rw [expandAll] at hrun
    obtain ⟨first, w₃, hfirst, hrun⟩ := World.exists_of_exec_bind hrun
    obtain ⟨others, w₄, hrest, hrun⟩ := World.exists_of_exec_bind hrun
    cases hrun
    obtain ⟨hapartFirst, hapartRest⟩ := List.pairwise_cons.1 hapart
    obtain ⟨hkind, hname⟩ := hfiles path List.mem_cons_self
    obtain ⟨hdelivered, hkept⟩ := exec_expandFile_delivered hlinkless hcheck hout hkind hname h
      (hspared path List.mem_cons_self) hfirst
    have h₃ : w.Confined (fun _ => True) w₃ :=
      keeps_exec (keeps_expandFile hout fun _ _ => trivial) h hfirst
    have hspared₃ : ∀ q ∈ rest, w.Spared q w₃ := by
      intro q hq location content hresolve hcontent
      refine hkept location content (fun hlanding => ?_)
        (hspared q (List.mem_cons_of_mem path hq) location content hresolve hcontent)
      exact (hapartFirst q hq).input location hlanding hresolve
    obtain ⟨hall, hkeptRest⟩ := ih (fun q hq => hfiles q (List.mem_cons_of_mem path hq))
      hapartRest h₃ hspared₃ hrest
    have hlater : w₃.Confined (fun _ => True) w₂ :=
      keeps_exec (keeps_expandAll hout fun _ _ _ _ => trivial) (.refl w₃ _) hrest
    have hretains := hlater.evolves.retains (h₃.evolves.linkless hlinkless)
    refine ⟨List.forall_mem_cons.2
      ⟨hdelivered.after hretains hlater.home hapartFirst hall hkeptRest, hall⟩, ?_⟩
    intro location content hother hcontent
    obtain ⟨hpath, hothers⟩ := List.forall_mem_cons.1 hother
    exact hkeptRest location content hothers (hkept location content hpath hcontent)

/-! ## The run -/

/-- A run over a folder of a tree without links that succeeds leaves in the place of each
counterpart the expansion of the text that the file had when the run began, unless the output for
one file has taken the place of another one before that was read, or of the output for another
one. -/
theorem run_delivers {w : World} {words : List Text} {o : Options} {input out : Path}
    (hwords : Accepted words o) (hcheck : o.check = false) (hinput : o.input = some input)
    (hout : o.out = some out) (hkind : w.kind? input = .ok (some .folder))
    (hlinkless : w.root.Linkless)
    (hapart : ∀ job, w.exec (prepare o) = (.ok job, w) → job.files.Pairwise (job.Apart w out))
    (hexit : ((run words : StateM World Outcome) w).1 = .exited 0) :
    ∃ job, w.exec (prepare o) = (.ok job, w) ∧ job.input = input ∧ job.files ≠ [] ∧
      ∀ path ∈ job.files, ∃ t result, w.read path = .ok t ∧
        o.expand? job.settings (Text.unifyNewlines t) = some result ∧
        ((run words : StateM World Outcome) w).2.read (job.counterpart out path) =
          .ok result.text := by
  rw [run_out hwords hout] at hexit ⊢
  rcases asks_prepare_onward w o with ⟨job, hjob, hready⟩ | ⟨e, errors, herror, hstopped⟩
  swap
  · rw [World.exec_bind_error herror] at hexit
    exact absurd hexit hstopped
  obtain ⟨rfl, hfolder⟩ := hready.input_eq hinput hkind
  rw [World.exec_bind_ok hjob] at hexit ⊢
  obtain ⟨right, hrun⟩ := exists_of_ending hout hfolder rfl hexit
  refine ⟨job, hjob, rfl, hready.nonempty, fun path hpath => ?_⟩
  have hfiles : ∀ path ∈ job.files, w.kind? path = .ok (some .file) ∧
      Path.isName (job.counterpart out path).last = true := fun path hpath =>
    ⟨(hready.files path hpath).2, hready.isName_counterpart hfolder out hpath⟩
  obtain ⟨hall, -⟩ := exec_expandAll_delivered hlinkless hcheck hout hfiles (hapart job hjob)
    (.refl w _) (fun _ _ _ _ _ hcontent => hcontent) hrun
  obtain ⟨t, result, location, hread, hresult, -, hresolve, hfile⟩ := hall path hpath
  exact ⟨t, result, hread, hresult, World.read_text (World.find_of_resolve hresolve hfile)⟩

/-- A folder with a source file, and another one of the same name in a folder below. -/
def nested (outer inner : Text) (below : List (Text × Node)) : World :=
  { root := .folder [("work", .folder [("d", .folder [
      ("a.rs", .file (.text outer)),
      ("sub", .folder (("a.rs", .file (.text inner)) :: below))])])]
    home := ["work"] }

/-- The options of a run on the folder, with a path for its output. -/
def nestedOptions (out : Text) : Options :=
  ⟨some (Path.ofText "d"), some (Path.ofText out), none, false, some [], false⟩

theorem prepare_nested (outer inner out : Text) :
    (nested outer inner []).exec (prepare (nestedOptions out)) =
      (.ok ⟨{}, Path.ofText "d", .folder, [Path.ofText "d/a.rs", Path.ofText "d/sub/a.rs"]⟩,
        nested outer inner []) := by
  cbv

theorem linkless_nested (outer inner : Text) : (nested outer inner []).root.Linkless :=
  (regular_of_isRegular _ (by cbv)).linkless

theorem write_nested_outer (outer inner text errors output : Text) :
    Store.write (m := StateM World) (Path.ofText "d/a.rs") text
        { nested outer inner [] with errors := errors, output := output } =
      (.done, { nested text inner [] with errors := errors, output := output }) := by
  cbv

theorem write_nested_inner (outer inner text errors output : Text) :
    Store.write (m := StateM World) (Path.ofText "d/sub/a.rs") text
        { nested outer inner [] with errors := errors, output := output } =
      (.done, { nested outer text [] with errors := errors, output := output }) := by
  cbv

theorem write_nested_below (outer inner text errors output : Text) :
    Store.write (m := StateM World) (Path.ofText "d/sub/sub/a.rs") text
        { nested outer inner [] with errors := errors, output := output } =
      (.done, { nested outer inner [("sub", .folder [("a.rs", .file (.text text))])] with
        errors := errors, output := output }) := by
  cbv

theorem find_nested_inner (outer inner errors output : Text) :
    { nested outer inner [] with errors := errors, output := output }.find
      (Path.ofText "d/sub/a.rs") = .ok (.file (.text inner)) := by
  cbv

theorem read_nested_below (outer inner text errors output : Text) :
    { nested outer inner [("sub", .folder [("a.rs", .file (.text text))])] with
      errors := errors, output := output }.read (Path.ofText "d/sub/sub/a.rs") = .ok text := by
  cbv

section

variable {o : Options} {s : Settings} (outer inner : Text) {result result' : Expansion}
  (hresult : o.expand? s (Text.unifyNewlines outer) = some result)

include hresult

/-- Both files are replaced by their output. -/
theorem writes_in_place (hresult' : o.expand? s (Text.unifyNewlines inner) = some result') :
    ∃ w', Writes o s (Path.ofText "d") (Path.ofText "d") (nested outer inner [])
      [⟨Path.ofText "d/a.rs", Text.unifyNewlines outer, result⟩,
        ⟨Path.ofText "d/sub/a.rs", Text.unifyNewlines inner, result'⟩] w' :=
  ⟨_, .cons ⟨⟨outer, by cbv, rfl⟩, hresult⟩ (write_nested_outer outer inner result.text _ _)
    (.cons ⟨⟨inner, find_nested_inner _ _ _ _, rfl⟩, hresult'⟩
      (write_nested_inner result.text inner result'.text _ _) (.nil _))⟩

/-- The output for the outer file takes the place of the inner one. -/
theorem writes_overlapping
    (hresult' : o.expand? s (Text.unifyNewlines result.text) = some result') :
    ∃ w', Writes o s (Path.ofText "d") (Path.ofText "d/sub") (nested outer inner [])
        [⟨Path.ofText "d/a.rs", Text.unifyNewlines outer, result⟩,
          ⟨Path.ofText "d/sub/a.rs", Text.unifyNewlines result.text, result'⟩] w' ∧
      w'.read (Path.ofText "d/sub/sub/a.rs") = .ok result'.text := by
  refine ⟨_, .cons ⟨⟨outer, by cbv, rfl⟩, hresult⟩ (write_nested_inner outer inner result.text _ _)
    (.cons ⟨⟨result.text, find_nested_inner _ _ _ _, rfl⟩, hresult'⟩
      (write_nested_below outer result.text result'.text _ _) (.nil _)), ?_⟩
  exact read_nested_below outer result.text result'.text _ _

end

/-- With the folder itself as the place for the output, every file is replaced by its own. -/
theorem run_delivers_in_place :
    let w := nested "struct A;" "struct B;" []
    let written := (run ["--input", "d", "--out", "d"] : StateM World Outcome) w
    w.root.Linkless ∧ written.1 = .exited 0 ∧
      written.2.read (Path.ofText "d/sub/a.rs") = .ok (transform {} "struct B;").text := by
  intro w written
  let outer : List Text := ["work", "d", "a.rs"]
  let inner : List Text := ["work", "d", "sub", "a.rs"]
  have hwords : Accepted ["--input", "d", "--out", "d"] (nestedOptions "d") := ⟨_, rfl, rfl⟩
  have hjob := prepare_nested "struct A;" "struct B;" "d"
  have hexit : written.1 = .exited 0 := by
    obtain ⟨w', hwrites⟩ := writes_in_place (o := nestedOptions "d") (s := {})
      "struct A;" "struct B;" rfl rfl
    have hrun : written = _ := hwrites.run_eq hwords rfl rfl hjob
    rw [hrun]
    exact exited_eq_zero.2 (by decide +kernel)
  have hapart : ∀ job, w.exec (prepare (nestedOptions "d")) = (.ok job, w) →
      job.files.Pairwise (job.Apart w (Path.ofText "d")) := by
    intro job hjob'
    rw [hjob] at hjob'
    cases hjob'
    have houter : w.landing (Path.ofText "d/a.rs") = some outer := by cbv
    have hinner : w.landing (Path.ofText "d/sub/a.rs") = some inner := by cbv
    have hinput : w.resolve (Path.ofText "d/sub/a.rs") = .ok inner := by cbv
    have hne : outer ≠ inner := by decide
    refine List.pairwise_pair.2 ⟨fun location hlanding hresolve => ?_, fun hsame => ?_⟩
    · obtain rfl : outer = location := Option.some.inj (houter.symm.trans hlanding)
      exact hne (Except.ok.inj (hresolve.symm.trans hinput))
    · exact absurd (Option.some.inj ((houter.symm.trans hsame).trans hinner)) hne
  refine ⟨linkless_nested _ _, hexit, ?_⟩
  obtain ⟨job, hjob', -, -, hall⟩ := run_delivers hwords rfl rfl rfl (by cbv) (linkless_nested _ _)
    hapart hexit
  rw [hjob] at hjob'
  cases hjob'
  obtain ⟨t, result, hread, hresult, hwritten⟩ :=
    hall (Path.ofText "d/sub/a.rs") (List.mem_cons_of_mem _ List.mem_cons_self)
  have htext : w.read (Path.ofText "d/sub/a.rs") = .ok "struct B;" := by cbv
  rw [htext] at hread
  cases hread
  cases hresult
  exact hwritten

/-- The output goes into a folder of the input, where that for the first file takes the place of the
second one, which is still to be read. -/
theorem run_overlapping :
    let w := nested "struct A;" "struct B;" []
    let o := nestedOptions "d/sub"
    let written := (run ["--input", "d", "--out", "d/sub"] : StateM World Outcome) w
    w.root.Linkless ∧ written.1 = .exited 0 ∧
      ∃ job path t result, w.exec (prepare o) = (.ok job, w) ∧ path ∈ job.files ∧
        w.read path = .ok t ∧ o.expand? job.settings (Text.unifyNewlines t) = some result ∧
        written.2.read (job.counterpart (Path.ofText "d/sub") path) ≠ .ok result.text := by
  intro w o written
  obtain ⟨w', hwrites, hread⟩ := writes_overlapping (o := o) (s := {}) "struct A;" "struct B;"
    rfl rfl
  have hrun : written = _ := hwrites.run_eq ⟨_, rfl, rfl⟩ rfl rfl
    (prepare_nested "struct A;" "struct B;" "d/sub")
  refine ⟨linkless_nested _ _, ?_, _, Path.ofText "d/sub/a.rs", "struct B;",
    transform {} "struct B;", prepare_nested _ _ _, List.mem_cons_of_mem _ List.mem_cons_self,
    by cbv, rfl, ?_⟩
  · rw [hrun]
    exact exited_eq_zero.2 (by decide +kernel)
  · rw [hrun]
    intro hsame
    have htexts := hread.symm.trans hsame
    rw [Except.ok.injEq] at htexts
    revert htexts
    decide +kernel

end ExpandCommand

end CondAttrs
