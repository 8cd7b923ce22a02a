import CondAttrs.Proofs.Checking
import CondAttrs.Proofs.Files.Write
import Mathlib

/-!
# Where the output comes to be

The expansion command is run on a folder, in a tree that may have links anywhere, and its output
goes below a path. Each file that the run creates or changes is the counterpart of a file that was
found, at the place to which the links of the tree lead the path of the counterpart. This is below
the place of the output if there is no link on the way from there, and the names of the counterpart
do not go up.

A link in the place of a counterpart is refused. A link in the place of a folder above it is not:
the output then comes to be wherever the link leads.

## Main definitions

* `ExpandCommand.Job.counterpart`: the path for the output of a file.

## Main statements

* `ExpandCommand.keeps_expandAll`: the run over the files changes counterparts only.
* `ExpandCommand.run_landing`: where the files are that a run creates or changes.
* `ExpandCommand.run_linked_folder`: a folder that is a link leads the output out of its place.
-/

namespace CondAttrs.ExpandCommand

open Node

/-! ## One file -/

section

variable {I : World → Prop} {α : Type}

theorem keeps_exec {ε : Type} {x : ExceptT ε (StateM World) α} {result : Except ε α}
    {w w' : World} (h : World.Keeps I x.run) (hw : I w) (hx : w.exec x = (result, w')) : I w' := by
  have hkept := h w hw
  have hrun : x.run w = (result, w') := hx
  rwa [hrun] at hkept

theorem keeps_orCrash {action : StateM World (Except FileError α)} (h : World.Keeps I action) :
    World.Keeps I (Step.orCrash action).run := by
  have hlift : World.Keeps I (liftM action : Step (StateM World) (Except FileError α)).run := h
  refine hlift.bind_step fun result => ?_
  cases result with
  | ok a => exact World.keeps_pure _
  | error e => exact World.keeps_pure _

theorem keeps_read (path : Path) : World.Keeps I (Step.read (m := StateM World) path).run :=
  World.Keeps.bind_step (keeps_orCrash fun _ hw => hw) fun _ => World.keeps_pure _

theorem keeps_valued (option : Usage.Spec) (value : Option α) :
    World.Keeps I (Step.valued (m := StateM World) option value).run := by
  cases value with
  | some a => exact World.keeps_pure _
  | none => exact World.keeps_pure _

end

section

variable {w : World} {P : List Text → Prop}

theorem keeps_print (text : Text) :
    World.Keeps (w.Confined P) (Step.print (m := StateM World) text).run :=
  fun _ h => h.printed _ _

theorem keeps_complain (text : Text) :
    World.Keeps (w.Confined P) (Step.complain (m := StateM World) text).run :=
  fun _ h => h.printed _ _

theorem keeps_refuse {α : Type} (message : Text) :
    World.Keeps (w.Confined P) (Step.refuse (m := StateM World) message : Step _ α).run :=
  (keeps_complain _).bind_step fun _ => World.keeps_pure _

theorem keeps_reportFaults (path : Path) (diagnostics : List Diagnostic) :
    World.Keeps (w.Confined P) (reportFaults (m := StateM World) path diagnostics).run := by
  rw [reportFaults]
  split
  · exact keeps_complain _
  · exact World.keeps_pure _

/-- A file that is written and reported as such is confined to where it comes to be. -/
theorem keeps_stepWrite {path : Path}
    (hP : ∀ location, w.landing path = some location → P location) (text : Text) :
    World.Keeps (w.Confined P) (Step.write (m := StateM World) path text).run := by
  have hlift : World.Keeps (w.Confined P)
      (liftM (Store.write path text : StateM World _) : Step (StateM World) _).run :=
    World.Confined.keeps_write hP text
  refine hlift.bind_step fun written => ?_
  cases written with
  | done => exact keeps_print _
  | refused message => exact keeps_refuse message
  | failed e => exact World.keeps_pure _

variable {o : Options} {s : Settings} {input out : Path}

/-- If the input is a folder, the output for a file goes to its counterpart. -/
theorem target_folder (input out path : Path) :
    target (m := StateM World) input .folder out path = pure (out.append (path.below input)) :=
  if_neg EntryKind.noConfusion

variable {path : Path} (hout : o.out = some out)
  (hP : ∀ location, w.landing (out.append (path.below input)) = some location → P location)

include hout hP

theorem keeps_deliver (text : Text) :
    World.Keeps (w.Confined P) (deliver (m := StateM World) o input .folder path text).run := by
  rw [deliver, hout]
  simp only [target_folder, pure_bind]
  exact keeps_stepWrite hP text

/-- Working on a file changes nothing but its counterpart. -/
theorem keeps_expandFile :
    World.Keeps (w.Confined P) (expandFile (m := StateM World) o s input .folder path).run := by
  refine (keeps_read path).bind_step fun before => ?_
  refine (keeps_valued argsOption _).bind_step fun result => ?_
  refine (keeps_reportFaults path _).bind_step fun _ => ?_
  split
  · split
    · exact World.keeps_pure _
    · exact (keeps_complain _).bind_step fun _ => World.keeps_pure _
  · exact (keeps_deliver hout hP _).bind_step fun _ => World.keeps_pure _

end

/-! ## All files -/

/-- The counterpart of a file: the path for its output. -/
def Job.counterpart (job : Job) (out path : Path) : Path :=
  out.append (path.below job.input)

section

variable {w : World} {P : List Text → Prop} {o : Options} {s : Settings} {input out : Path}

/-- Working on some files changes nothing but their counterparts. -/
theorem keeps_expandAll {files : List Path} (hout : o.out = some out)
    (hP : ∀ path ∈ files, ∀ location,
      w.landing (out.append (path.below input)) = some location → P location) :
    World.Keeps (w.Confined P) (expandAll (m := StateM World) o s input .folder files).run := by
  induction files with
  | nil => exact World.keeps_pure _
  | cons path rest ih =>
    rw [expandAll]
    refine (keeps_expandFile hout (hP path List.mem_cons_self)).bind_step fun first => ?_
    refine (ih fun path' hpath' => hP path' (List.mem_cons_of_mem path hpath')).bind_step
      fun others => ?_
    exact World.keeps_pure _

theorem keeps_perform {job : Job} (hkind : job.kind = .folder) (hout : o.out = some out)
    (hP : ∀ path ∈ job.files, ∀ location,
      w.landing (job.counterpart out path) = some location → P location) :
    World.Keeps (w.Confined P) (perform o job).run := by
  rw [perform, hkind]
  refine (keeps_expandAll hout hP).bind_step fun right => ?_
  split <;> exact World.keeps_pure _

/-- The input of a job is the one that was given. -/
theorem Job.Ready.input_eq {P : Path → Path → Prop} {job : Job} {kind : EntryKind}
    (h : job.Ready w o P) (hinput : o.input = some input)
    (hkind : w.kind? input = .ok (some kind)) : job.input = input ∧ job.kind = kind := by
  obtain rfl : job.input = input := Option.some.inj (h.input.symm.trans hinput)
  exact ⟨rfl, Option.some.inj (Except.ok.inj (h.kind.symm.trans hkind))⟩

/-- The files of a job whose input is a folder are below it. -/
theorem Job.Ready.exists_below {job : Job} (h : job.Ready w o Glob.Onward)
    (hkind : job.kind = .folder) {path : Path} (hpath : path ∈ job.files) :
    ∃ names, names ≠ [] ∧ path = job.input.append names := by
  obtain ⟨⟨names, rfl⟩, hfile⟩ := h.files path hpath
  refine ⟨names, ?_, rfl⟩
  rintro rfl
  rw [Path.append_nil, h.kind, hkind] at hfile
  cases hfile

/-- Whatever there is in the input, the paths of the files go on from its path. -/
theorem asks_prepare_onward (w : World) (o : Options) :
    w.Asks (prepare o) Stopped (Job.Ready w o Glob.Onward) :=
  asks_prepare_closed fun input _ _ _ => ⟨Glob.closed_onward w input, Glob.onward_self input⟩

/-- If there is a path for the output, the run has two parts. -/
theorem run_out {words : List Text} (hwords : Accepted words o) (hout : o.out = some out) :
    (run words : StateM World Outcome) w = ending (w.exec (prepare o >>= perform o)) := by
  have hsome : o.out.isSome = true := by rw [hout, Option.isSome_some]
  rw [run_eq hwords, steps_eq (.inr hsome)]

theorem ending_world (result : Except Outcome Nat × World) : (ending result).2 = result.2 := by
  obtain ⟨code | e, w⟩ := result <;> rfl

end

/-- Every file that a run creates or changes is where the links of the tree lead the path of the
counterpart of a file that was found. Without links on the way from the place of the output this is
below that place. -/
theorem run_landing {w : World} {words : List Text} {o : Options} {input out : Path}
    (hwords : Accepted words o) (hinput : o.input = some input) (hout : o.out = some out)
    (hkind : w.kind? input = .ok (some .folder)) {location : List Text} {content : Content}
    (hfile : ((run words : StateM World Outcome) w).2.root.at? location = some (.file content))
    (hchanged : w.root.at? location ≠ some (.file content)) :
    ∃ job path, w.exec (prepare o) = (.ok job, w) ∧ path ∈ job.files ∧
      w.landing (job.counterpart out path) = some location ∧
      ∀ place, w.locate out = some place → (∀ name ∈ path.below input, Proper name) →
        Clear w.root place (path.below input).dropLast → place <+: location := by
  rw [run_out hwords hout, ending_world] at hfile
  rcases asks_prepare_onward w o with ⟨job, hjob, hready⟩ | ⟨e, errors, herror, -⟩
  swap
  · rw [World.exec_bind_error herror] at hfile
    exact absurd hfile hchanged
  rw [World.exec_bind_ok hjob] at hfile
  obtain ⟨rfl, hfolder⟩ := hready.input_eq hinput hkind
  have hconfined : w.Confined (fun location => ∃ path ∈ job.files,
      w.landing (job.counterpart out path) = some location) (w.exec (perform o job)).2 :=
    keeps_exec (keeps_perform hfolder hout fun path hpath location hlanding =>
      ⟨path, hpath, hlanding⟩) (.refl w _) rfl
  rcases hconfined.files location content hfile with hsame | ⟨path, hpath, hlanding⟩
  · exact absurd hsame hchanged
  refine ⟨job, path, hjob, hpath, hlanding, fun place hplace hnames hclear => ?_⟩
  obtain ⟨names, hne, rfl⟩ := hready.exists_below hfolder hpath
  rw [Path.below_append] at hnames hclear
  rw [Job.counterpart, Path.below_append,
    World.landing_append hplace hne hnames hclear, Option.some.injEq] at hlanding
  exact ⟨names, hlanding⟩

/-! ## Runs on given trees -/

/-- Files are read, expanded and written one after the other, from one world to another. -/
inductive Writes (o : Options) (s : Settings) (input out : Path) :
    World → List Review → World → Prop
  | nil (w : World) : Writes o s input out w [] w
  | cons {w w₁ w' : World} {r : Review} {rest : List Review} (hr : r.Of w o s)
      (hwrite : Store.write (m := StateM World) (out.append (r.path.below input)) r.result.text
        { w with errors := w.errors ++ r.faults } = (.done, w₁))
      (hrest : Writes o s input out
        { w₁ with output := w₁.output ++ okLine (out.append (r.path.below input)).text } rest w') :
      Writes o s input out w (r :: rest) w'

section

variable {w w' : World} {o : Options} {s : Settings} {input out : Path} {reviews : List Review}

theorem Writes.exec_expandAll (h : Writes o s input out w reviews w') (hcheck : o.check = false)
    (hout : o.out = some out) :
    w.exec (expandAll o s input .folder (reviews.map Review.path)) =
      (.ok (reviews.all fun r => r.result.ok), w') := by
  induction h with
  | nil w => rfl
  | @cons w w₁ w' r rest hr hwrite hrest ih =>
    have hfirst : w.exec (expandFile o s input .folder r.path) = _ :=
      exec_delivered hcheck hout hr rfl (by rw [target_folder]; rfl) hwrite
    rw [List.map_cons, expandAll, World.exec_bind_ok hfirst, World.exec_bind_ok ih]
    rfl

theorem Writes.run_eq {words : List Text} (h : Writes o s input out w reviews w')
    (hwords : Accepted words o) (hcheck : o.check = false) (hout : o.out = some out)
    (hjob : w.exec (prepare o) = (.ok ⟨s, input, .folder, reviews.map Review.path⟩, w)) :
    (run words : StateM World Outcome) w =
      (.exited (if reviews.all fun r => r.result.ok then 0 else 2), w') := by
  rw [run_out hwords hout, World.exec_bind_ok hjob, exec_perform (h.exec_expandAll hcheck hout)]

end

/-- A folder with a source file in a folder below, and a place for the output with an entry of the
name of that folder. -/
def sheltered (entry : Node) (elsewhere : List (Text × Node)) : World :=
  { root := .folder [("work", .folder [
      ("d", .folder [("sub", .folder [("a.rs", .file (.text "struct S;"))])]),
      ("elsewhere", .folder elsewhere),
      ("out", .folder [("sub", entry)])])]
    home := ["work"] }

/-- The options of a run on the folder. -/
def shelteredOptions : Options :=
  ⟨some (Path.ofText "d"), some (Path.ofText "out"), none, false, some [], false⟩

theorem accepted_sheltered : Accepted ["--input", "d", "--out", "out"] shelteredOptions :=
  ⟨_, rfl, rfl⟩

theorem prepare_sheltered (entry : Node) :
    (sheltered entry []).exec (prepare shelteredOptions) =
      (.ok ⟨{}, Path.ofText "d", .folder, [Path.ofText "d/sub/a.rs"]⟩, sheltered entry []) := by
  cbv

theorem run_sheltered (entry : Node) (after : Text → Text → World)
    (hwrite : ∀ text errors, Store.write (m := StateM World) (Path.ofText "out/sub/a.rs") text
      { sheltered entry [] with errors := errors } = (.done, after text errors)) :
    ∃ errors, ((run ["--input", "d", "--out", "out"] : StateM World Outcome)
      (sheltered entry [])).2.root = (after (transform {} "struct S;").text errors).root := by
  let r : Review := ⟨Path.ofText "d/sub/a.rs", "struct S;", transform {} "struct S;"⟩
  have hr : r.Of (sheltered entry []) shelteredOptions {} := ⟨⟨_, by cbv, rfl⟩, rfl⟩
  have hwrites : Writes shelteredOptions {} (Path.ofText "d") (Path.ofText "out")
      (sheltered entry []) [r] _ := .cons hr (hwrite r.result.text r.faults) (.nil _)
  rw [hwrites.run_eq accepted_sheltered rfl rfl (prepare_sheltered entry)]
  exact ⟨r.faults, rfl⟩

/-- There may be links in the place of the output, as long as they are not on the way. -/
theorem run_landing_beside :
    let w := sheltered (.folder [("old", .link "../../elsewhere")]) []
    let written := (run ["--input", "d", "--out", "out"] : StateM World Outcome) w
    let place : List Text := ["work", "out"]
    let location : List Text := ["work", "out", "sub", "a.rs"]
    let content : Content := .text (transform {} "struct S;").text
    written.2.root.at? location = some (.file content) ∧ w.root.at? location = none ∧
      w.locate (Path.ofText "out") = some place ∧ place <+: location := by
  intro w written place location content
  obtain ⟨errors, hroot⟩ := run_sheltered (.folder [("old", .link "../../elsewhere")])
    (fun text errors => { sheltered (.folder [("old", .link "../../elsewhere"),
      ("a.rs", .file (.text text))]) [] with errors := errors }) (by intro text errors; cbv)
  have hfile : written.2.root.at? location = some (.file content) := by
    rw [hroot]
    rfl
  have hfree : w.root.at? location = none := rfl
  have hplace : w.locate (Path.ofText "out") = some place := by cbv
  refine ⟨hfile, hfree, hplace, ?_⟩
  have hchanged : w.root.at? location ≠ some (.file content) := by
    rw [hfree]
    exact (Option.some_ne_none _).symm
  obtain ⟨job, path, hjob, hpath, -, hunder⟩ :=
    run_landing accepted_sheltered rfl rfl (by cbv) hfile hchanged
  rw [prepare_sheltered] at hjob
  cases hjob
  rw [List.mem_singleton.1 hpath] at hunder
  refine hunder place hplace (by decide) fun front hfront target htarget => ?_
  rcases List.prefix_cons_iff.1 hfront with rfl | ⟨rest, rfl, hrest⟩
  · cases htarget
  · rw [List.prefix_nil.1 hrest] at htarget
    cases htarget

/-- A folder that is a link leads the output out of its place. -/
theorem run_linked_folder :
    let w := sheltered (.link "../elsewhere") []
    let written := (run ["--input", "d", "--out", "out"] : StateM World Outcome) w
    let place : List Text := ["work", "out"]
    let location : List Text := ["work", "elsewhere", "a.rs"]
    let content : Content := .text (transform {} "struct S;").text
    written.2.root.at? location = some (.file content) ∧ w.root.at? location = none ∧
      w.locate (Path.ofText "out") = some place ∧ ¬ place <+: location := by
  intro w written place location content
  obtain ⟨errors, hroot⟩ := run_sheltered (.link "../elsewhere")
    (fun text errors => { sheltered (.link "../elsewhere") [("a.rs", .file (.text text))] with
      errors := errors }) (by intro text errors; cbv)
  refine ⟨?_, rfl, by cbv, by decide⟩
  rw [hroot]
  rfl

end CondAttrs.ExpandCommand
